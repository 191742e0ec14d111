import Scriptlet.Proofs.Session.Frame
import Scriptlet.Proofs.Store.Lasting

/-!
# Constants never change

A constant has its value for ever, and a function its code, whatever a host does with a session. A
name goes on standing for what it was declared as. There are two exceptions: a run puts new
arguments in the place of the old ones, and when it succeeds it empties the scope of its entry
point, which did not exist before the run.
-/

namespace Scriptlet.Session

open Eval

/-- The names that may stand for something else after a sequence of steps: the arguments, if one of
the steps is a run. -/
def rebound (steps : List (Nat × Step)) (id : ScopeId) (name : String) : Prop :=
  id = standardScope ∧ name = "args" ∧
    ∃ limit source argv, (limit, Step.run source argv) ∈ steps

theorem rebound_mono {steps steps' : List (Nat × Step)} (h : steps ⊆ steps') (id : ScopeId)
    (name : String) : rebound steps id name → rebound steps' id name := by
  rintro ⟨hid, hname, limit, source, argv, hmem⟩
  exact ⟨hid, hname, limit, source, argv, h hmem⟩

/-- The name of the arguments of a run. -/
def argsName (id : ScopeId) (name : String) : Prop := id = standardScope ∧ name = "args"

/-- The permit of a step on a store: names are declared in the main module and in new scopes. -/
def permitOn (s : Store) (drops : ScopeId → String → Prop) : Permit where
  base := s.scopes.size
  declares id name := id = mainScope ∨ argsName id name
  drops := drops
  strict := True

variable {s : Store} {m : Machine} {drops : ScopeId → String → Prop}

theorem hosts_permitOn (hs : s.Sound permit) (drops : ScopeId → String → Prop) :
    Hosts (permitOn s drops) where
  grown := hs.grown
  opens _ := Or.inr (Or.inl rfl)

theorem serves_permitOn (hs : s.Sound permit) : Serves (permitOn s argsName) where
  toHosts := hosts_permitOn hs argsName
  args := Or.inr (Or.inr ⟨rfl, rfl⟩)
  rebinds := ⟨rfl, rfl⟩

theorem sound_permitOn (hs : s.Sound permit) : s.Sound (permitOn s drops) where
  closed := hs.closed
  coded := hs.coded
  grown := Nat.le_refl _

/-! ## Runs -/

/-- What a run does to the names of a machine. If it fails, only the arguments may be others. If it
succeeds, there were the preparations and the instructions of the entry point, which drop no name,
and then the scope of the entry point was emptied. -/
def RunKeeps (limit : Nat) (source : String) (argv : List String) (m : Machine) : Prop :=
  match run limit source argv m with
  | .error _ m' => m.store.Keeps argsName m'.store
  | .ok _ m' => ∃ depth main m₁ entry m₂, prepare limit source argv m = .ok main m₁ ∧
      body depth main.1 main.2 m₁ = .ok entry m₂ ∧ ¬ m.store.Has (.scope entry) ∧
      m.store.Keeps argsName m₁.store ∧ m₁.store.Keeps Store.noDrops m₂.store ∧
      m' = { m₂ with store := m₂.store.clean entry }

/-- The entry point drops no name until it has ended. -/
theorem body_keeps {m₁ : Machine} (hs : m₁.store.Sound (permitOn s argsName)) (depth : Nat)
    {main : String × Closure} (around : m₁.store.Has (.scope main.2.scope))
    (code : (Callable.closure main.2).Fits) :
    Obeys (Machine.Moves (permitOn s Store.noDrops)) (fun _ => True) m₁
      (body depth main.1 main.2) fun entry _ => ¬ s.Has (.scope entry) := by
  have hbody := body_does (π := permitOn s Store.noDrops) depth main.1 around fun _ => code
  refine (hbody ⟨hs.closed, hs.coded, hs.grown⟩).imp ?_ fun _ _ => trivial
  intro entry m₂ _ fresh
  exact Nat.not_lt.mpr fresh

theorem run_keeps (hs : m.store.Sound permit) (limit : Nat) (source : String) (argv : List String) :
    RunKeeps limit source argv m := by
  have hprepare := prepare_does (serves_permitOn hs) limit source argv (sound_permitOn hs)
  unfold RunKeeps
  cases hr : run limit source argv m with
  | error f m' =>
    rw [run_eq] at hr
    rcases bind_eq_error hr with hp | ⟨main, m₁, hp, he⟩
    · exact (hprepare.of_error hp).1.keeps_names
    obtain ⟨hchanges, around, code⟩ := hprepare.of_ok hp
    have hkept := hchanges.keeps_names
    cases limit with
    | zero =>
      cases he
      exact hkept
    | succ depth =>
      have hbody := body_keeps (hchanges.sound (sound_permitOn hs)) depth around (code trivial)
      rw [enter_eq] at he
      rcases bind_eq_error he with hb | ⟨entry, m₂, -, hc⟩
      · have hlast := (hbody.of_error hb).1.keeps_names
        exact hkept.trans (hlast.mono fun _ _ => False.elim)
      · cases hc
  | ok _ m' =>
    rw [run_eq] at hr
    obtain ⟨main, m₁, hp, he⟩ := bind_eq_ok hr
    obtain ⟨hchanges, around, code⟩ := hprepare.of_ok hp
    cases limit with
    | zero => cases he
    | succ depth =>
      have hbody := body_keeps (hchanges.sound (sound_permitOn hs)) depth around (code trivial)
      rw [enter_eq] at he
      obtain ⟨entry, m₂, hb, hc⟩ := bind_eq_ok he
      obtain ⟨hlast, hnew⟩ := hbody.of_ok hb
      refine ⟨depth, main, m₁, entry, m₂, hp, hb, hnew, hchanges.keeps_names,
        hlast.keeps_names, ?_⟩
      cases hc
      rfl

/-! ## Steps -/

/-- A run that has ended well has dropped none of the names that were there but the arguments. -/
theorem RunKeeps.keeps_final {limit : Nat} {source : String} {argv : List String}
    (h : RunKeeps limit source argv m) :
    m.store.Keeps argsName (final (run limit source argv) m).store := by
  unfold RunKeeps at h
  unfold final
  cases hr : run limit source argv m with
  | error f m' =>
    rw [hr] at h
    exact h
  | ok _ m' =>
    rw [hr] at h
    obtain ⟨depth, main, m₁, entry, m₂, -, -, hnew, hfirst, hlast, rfl⟩ := h
    exact (hfirst.trans (hlast.mono fun _ _ => False.elim)).clean hnew

/-- The machine that a run leaves behind is that of the step. -/
theorem final_run (limit : Nat) (held : List Value) (source : String) (argv : List String) :
    final (act limit held (.run source argv)) m = final (run limit source argv) m := by
  unfold final
  cases hr : run limit source argv m with
  | ok _ m' =>
    have hact : act limit held (.run source argv) m = .ok none m' := bind_ok hr
    rw [hact]
  | error f m' =>
    have hact : act limit held (.run source argv) m = .error f m' := by
      show EStateM.bind (run limit source argv) _ m = .error f m'
      rw [EStateM.bind, hr]
    rw [hact]

theorem State.perform_machine (st : State) (limit : Nat) (step : Step) :
    (st.perform limit step).2.machine = final (act limit st.held step) st.machine := by
  unfold State.perform final
  cases act limit st.held step st.machine <;> rfl

theorem State.Sound.perform_keeps {st : State} (h : st.Sound) (limit : Nat) (step : Step) :
    st.machine.store.Keeps (rebound [(limit, step)])
      (st.perform limit step).2.machine.store := by
  rw [State.perform_machine]
  by_cases hrun : ∃ source argv, step = .run source argv
  · obtain ⟨source, argv, rfl⟩ := hrun
    rw [final_run]
    refine (run_keeps h.store limit source argv).keeps_final.mono ?_
    rintro id name ⟨rfl, rfl⟩
    exact ⟨rfl, rfl, limit, source, argv, List.mem_singleton.mpr rfl⟩
  · have hact := Session.act_does (hosts_permitOn h.store Store.noDrops) limit step
      (fun source argv he => absurd ⟨source, argv, he⟩ hrun) h.held
    exact (hact.changes_final (sound_permitOn h.store)).keeps_names.mono fun _ _ => False.elim

/-- Constants, functions and names last over any number of steps. -/
theorem State.Sound.keeps : ∀ (steps : List (Nat × Step)) {st : State}, st.Sound →
    st.machine.store.Keeps (rebound steps)
      (steps.foldl (fun st step => (st.perform step.1 step.2).2) st).machine.store
  | [], st, _ => .refl _
  | (limit, step) :: steps, st, h => by
    have hfirst := (h.perform_keeps limit step).mono
      (rebound_mono (List.cons_subset_cons (limit, step) (List.nil_subset steps)))
    refine hfirst.trans ((State.Sound.keeps steps (h.after limit step)).mono ?_)
    exact rebound_mono (List.subset_cons_self _ _)

/-- For every sequence of steps on a new session and all that may follow: constants and functions
are for ever what they are, and names go on standing for what they stand for, except for the
arguments if a run follows. A run that succeeds ends by emptying the scope of its entry point, which
is a new one. Within a step, whatever is evaluated or called in whatever closed store, such as that
of the session, drops no name at all. -/
theorem constants_never_change (tracing : Bool) (history future : List (Nat × Step)) :
    (play tracing history).machine.store.Keeps (rebound future)
        (play tracing (history ++ future)).machine.store ∧
      (∀ limit source argv, RunKeeps limit source argv (play tracing history).machine) ∧
      (play tracing history).machine.store.Closed ∧
      ∀ m : Machine, m.store.Closed → ∀ depth,
        (∀ node scope, m.store.Has (.scope scope) → ∀ m' ∈ finals depth node scope m,
          m.store.Keeps Store.noDrops m'.store) ∧
        ∀ id args, m.store.Has (.object id) → (∀ v ∈ args, m.store.Holds v) →
          m.store.Keeps Store.noDrops (final (invoke depth id args) m).store := by
  have hsound := (play_spec tracing history).1
  refine ⟨?_, run_keeps hsound.store, hsound.store.closed, ?_⟩
  · rw [play_append]
    exact hsound.keeps future
  · intro m hclosed depth
    refine ⟨?_, ?_⟩
    · intro node scope hscope m' hm'
      exact (changes_of_mem_finals hclosed hscope hm').keeps_names
    · intro id args hid held
      exact (changes_invoke mainScope hclosed depth hid held).keeps_names

/-- A constant that is assigned to has the value that it had. -/
theorem constant_after_assignment :
    (play false [(9, .execute "const x = 5;")]).machine.store.variableAt? ⟨0⟩ =
        some ⟨"x", true, .int 5, false⟩ ∧
      (play false ([(9, .execute "const x = 5;")] ++
          [(9, .execute "x = 6;")])).machine.store.variableAt? ⟨0⟩ =
        some ⟨"x", true, .int 5, false⟩ := by
  have hdeclared : (play false [(9, .execute "const x = 5;")]).machine.store.variableAt? ⟨0⟩ =
      some ⟨"x", true, .int 5, false⟩ := by cbv
  exact ⟨hdeclared, (constants_never_change false _ _).1.constants _ _ hdeclared rfl⟩

end Scriptlet.Session
