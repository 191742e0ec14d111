/-!
# Actions that look away

Some of what a state holds makes no difference to what happens: the place of a token to what is
read, the line of a node to what is computed. An `Erasure` blots such things out, in states and in
faults. `e.Mirrors f act act'` says that on what is left of a state, `act'` comes to what is left of
the outcome of `act`; `f` blots out in the result. Mostly the two are one and the same action, which
then cannot tell states apart that differ in what is erased (`Mirrors.eq_of_eq`).

There is a rule for each way to make an action.
-/

namespace Scriptlet

variable {ε σ α β γ δ : Type}

/-- What is left of states and faults. -/
structure Erasure (ε σ : Type) where
  state : σ → σ
  fault : ε → ε

namespace Erasure

/-- What is left of an outcome. -/
def outcome (e : Erasure ε σ) (f : α → β) : EStateM.Result ε σ α → EStateM.Result ε σ β
  | .ok a s => .ok (f a) (e.state s)
  | .error x s => .error (e.fault x) (e.state s)

/-- Outcomes of which the same is left are of one kind. -/
theorem cases_of_outcome_eq {e : Erasure ε σ} {f : α → γ} {g : β → γ}
    {r : EStateM.Result ε σ α} {r' : EStateM.Result ε σ β} (h : e.outcome f r = e.outcome g r') :
    (∃ a s b t, r = .ok a s ∧ r' = .ok b t ∧ f a = g b ∧ e.state s = e.state t) ∨
      ∃ x s y t,
        r = .error x s ∧ r' = .error y t ∧ e.fault x = e.fault y ∧ e.state s = e.state t := by
  cases r with
  | ok a s =>
    cases r' with
    | ok b t =>
      injection h with hresult hstate
      exact Or.inl ⟨a, s, b, t, rfl, rfl, hresult, hstate⟩
    | error y t => cases h
  | error x s =>
    cases r' with
    | ok b t => cases h
    | error y t =>
      injection h with hfault hstate
      exact Or.inr ⟨x, s, y, t, rfl, rfl, hfault, hstate⟩

/-- On what is left of a state, `act'` comes to what is left of the outcome of `act`. -/
structure Mirrors (e : Erasure ε σ) (f : α → β) (act : EStateM ε σ α) (act' : EStateM ε σ β) :
    Prop where
  outcome_eq : ∀ s, act' (e.state s) = e.outcome f (act s)

namespace Mirrors

variable {e : Erasure ε σ} {f : α → β} {act : EStateM ε σ α} {act' : EStateM ε σ β}

/-- An action that is mirrored does not tell apart states of which the same is left. -/
theorem eq_of_eq (h : e.Mirrors f act act') {s t : σ} (hst : e.state s = e.state t) :
    e.outcome f (act s) = e.outcome f (act t) := by
  rw [← h.outcome_eq s, hst, h.outcome_eq t]

theorem pure (a : α) : e.Mirrors f (Pure.pure a) (Pure.pure (f a)) := ⟨fun _ => rfl⟩

/-- A result that is left of another. -/
theorem returns {a : α} {b : β} (h : f a = b) : e.Mirrors f (Pure.pure a) (Pure.pure b) := by
  rw [← h]
  exact pure a

theorem throw (x : ε) :
    e.Mirrors f (MonadExcept.throw x) (MonadExcept.throw (e.fault x)) := ⟨fun _ => rfl⟩

theorem get : e.Mirrors e.state (MonadState.get : EStateM ε σ σ) MonadState.get := ⟨fun _ => rfl⟩

theorem modified {g g' : σ → σ} (h : ∀ s, g' (e.state s) = e.state (g s)) :
    e.Mirrors id (modify g : EStateM ε σ PUnit) (modify g') := by
  constructor
  intro s
  show EStateM.Result.ok PUnit.unit (g' (e.state s)) = _
  rw [h s]
  rfl

theorem bind {g : γ → δ} {next : α → EStateM ε σ γ} {next' : β → EStateM ε σ δ}
    (h : e.Mirrors f act act') (hn : ∀ a, e.Mirrors g (next a) (next' (f a))) :
    e.Mirrors g (act >>= next) (act' >>= next') := by
  constructor
  intro s
  show EStateM.bind act' next' (e.state s) = e.outcome g (EStateM.bind act next s)
  unfold EStateM.bind
  rw [h.outcome_eq s]
  cases act s with
  | ok a s' => exact (hn a).outcome_eq s'
  | error x s' => rfl

/-- One action after another, of whose result nothing is blotted out. -/
theorem next {g : γ → δ} {act act' : EStateM ε σ α} {next : α → EStateM ε σ γ}
    {next' : α → EStateM ε σ δ} (h : e.Mirrors id act act')
    (hn : ∀ a, e.Mirrors g (next a) (next' a)) : e.Mirrors g (act >>= next) (act' >>= next') :=
  h.bind hn

/-- A choice between two actions. -/
theorem ite {c : Prop} [Decidable c] {other : EStateM ε σ α} {other' : EStateM ε σ β}
    (h : e.Mirrors f act act') (ho : e.Mirrors f other other') :
    e.Mirrors f (if c then act else other) (if c then act' else other') := by
  split
  · exact h
  · exact ho

/-- An action for each item of a list, from left to right. -/
theorem mapM {item : α → EStateM ε σ γ} {item' : β → EStateM ε σ δ} {g : γ → δ} :
    ∀ items : List α, (∀ a ∈ items, e.Mirrors g (item a) (item' (f a))) →
      e.Mirrors (List.map g) (items.mapM item) ((items.map f).mapM item')
  | [], _ => by
    rw [List.map_nil, List.mapM_nil, List.mapM_nil]
    exact .pure []
  | a :: items, h => by
    rw [List.map_cons, List.mapM_cons, List.mapM_cons]
    refine (h a List.mem_cons_self).bind fun b => ?_
    refine (mapM items fun a' ha => h a' (List.mem_cons_of_mem _ ha)).bind fun bs => ?_
    exact .pure (b :: bs)

end Mirrors

end Erasure

end Scriptlet
