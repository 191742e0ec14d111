/-!
# Actions in step

Where states that come to the same are not equal but related, two actions are compared by
`Follows R f act act'`: from related states they come to outcomes of one kind, with related states,
with the same fault or with results of which the second is `f` of the first. Unlike an `Erasure`, a
relation need not single out one state on either side.

There is a rule for each way to make an action.
-/

namespace Scriptlet

variable {ε σ τ α β γ δ : Type}

/-- Outcomes of one kind with related states. -/
inductive Paired (R : σ → τ → Prop) (f : α → β) :
    EStateM.Result ε σ α → EStateM.Result ε τ β → Prop
  | ok {a : α} {s : σ} {s' : τ} : R s s' → Paired R f (.ok a s) (.ok (f a) s')
  | error {x : ε} {s : σ} {s' : τ} : R s s' → Paired R f (.error x s) (.error x s')

/-- From related states, `act'` comes to what is paired with the outcome of `act`. -/
structure Follows (R : σ → τ → Prop) (f : α → β) (act : EStateM ε σ α) (act' : EStateM ε τ β) :
    Prop where
  paired : ∀ {s : σ} {s' : τ}, R s s' → Paired R f (act s) (act' s')

namespace Follows

variable {R : σ → τ → Prop} {f : α → β} {act : EStateM ε σ α} {act' : EStateM ε τ β}

theorem pure (a : α) : Follows R f (Pure.pure a : EStateM ε σ α) (Pure.pure (f a)) :=
  ⟨fun h => .ok h⟩

/-- A result that belongs to another. -/
theorem returns {a : α} {b : β} (h : f a = b) :
    Follows R f (Pure.pure a : EStateM ε σ α) (Pure.pure b) := by
  rw [← h]
  exact pure a

theorem throw (x : ε) :
    Follows R f (MonadExcept.throw x : EStateM ε σ α) (MonadExcept.throw x) := ⟨fun h => .error h⟩

theorem modified {g : σ → σ} {g' : τ → τ} (h : ∀ {s : σ} {s' : τ}, R s s' → R (g s) (g' s')) :
    Follows R id (modify g : EStateM ε σ PUnit) (modify g') :=
  ⟨fun hs => .ok (h hs)⟩

theorem bind {g : γ → δ} {next : α → EStateM ε σ γ} {next' : β → EStateM ε τ δ}
    (h : Follows R f act act') (hn : ∀ a, Follows R g (next a) (next' (f a))) :
    Follows R g (act >>= next) (act' >>= next') := by
  constructor
  intro s s' hs
  show Paired R g (EStateM.bind act next s) (EStateM.bind act' next' s')
  unfold EStateM.bind
  have hfirst := h.paired hs
  generalize act s = r, act' s' = r' at hfirst
  cases hfirst with
  | ok ha => exact (hn _).paired ha
  | error hx => exact .error hx

/-- One action after another, where the results are the same. -/
theorem next {g : γ → δ} {act : EStateM ε σ α} {act' : EStateM ε τ α} {next : α → EStateM ε σ γ}
    {next' : α → EStateM ε τ δ} (h : Follows R id act act')
    (hn : ∀ a, Follows R g (next a) (next' a)) : Follows R g (act >>= next) (act' >>= next') :=
  h.bind hn

/-- A choice between two actions. -/
theorem ite {c : Prop} [Decidable c] {other : EStateM ε σ α} {other' : EStateM ε τ β}
    (h : Follows R f act act') (ho : Follows R f other other') :
    Follows R f (if c then act else other) (if c then act' else other') := by
  split
  · exact h
  · exact ho

/-- An action for each item of a list, from left to right. -/
theorem mapM {item : α → EStateM ε σ γ} {item' : α → EStateM ε τ γ} {g : γ → γ}
    (h : ∀ a, Follows R g (item a) (item' a)) :
    ∀ items : List α, Follows R (List.map g) (items.mapM item) (items.mapM item')
  | [] => by
    rw [List.mapM_nil, List.mapM_nil]
    exact .pure []
  | a :: items => by
    rw [List.mapM_cons, List.mapM_cons]
    exact (h a).bind fun b => (mapM h items).bind fun bs => .pure (b :: bs)

end Follows

end Scriptlet
