import Mathlib.Order.Defs.Unbundled

/-!
# What an action does to its state

Reading and evaluation are both actions on a state that may fail, and a failure leaves the state
as it is at that moment. So what is said about an action has to cover both ends: `Obeys R F s act P`
says that from the state `s` the action moves the state along `R` whatever happens, and ends in a
result that satisfies `P` or in a fault that satisfies `F`.

`R` relates the first state to the last one. It is reflexive and transitive wherever it is used,
which makes the rules compose: what holds along `R` need not be carried through a proof by hand.
-/

namespace Scriptlet

variable {ε σ α β : Type}

/-- From `s` the action moves along `R` and ends in a result with `P` or in a fault with `F`. -/
def Obeys (R : σ → σ → Prop) (F : ε → Prop) (s : σ) (act : EStateM ε σ α)
    (P : α → σ → Prop) : Prop :=
  match act s with
  | .ok a s' => R s s' ∧ P a s'
  | .error e s' => R s s' ∧ F e

/-- An action after one that ended well. -/
theorem bind_ok {act : EStateM ε σ α} {next : α → EStateM ε σ β} {a : α} {s s' : σ}
    (h : act s = .ok a s') : (act >>= next) s = next a s' := by
  show EStateM.bind act next s = next a s'
  rw [EStateM.bind, h]

/-- Nothing is done after a failure. -/
theorem bind_error {act : EStateM ε σ α} {next : α → EStateM ε σ β} {e : ε} {s s' : σ}
    (h : act s = .error e s') : (act >>= next) s = .error e s' := by
  show EStateM.bind act next s = .error e s'
  rw [EStateM.bind, h]

/-- Two actions in a row end well if both do. -/
theorem bind_eq_ok {act : EStateM ε σ α} {next : α → EStateM ε σ β} {b : β} {s s'' : σ}
    (h : (act >>= next) s = .ok b s'') :
    ∃ a s', act s = .ok a s' ∧ next a s' = .ok b s'' := by
  change EStateM.bind act next s = .ok b s'' at h
  cases hr : act s with
  | ok a s' =>
    refine ⟨a, s', rfl, ?_⟩
    rwa [EStateM.bind, hr] at h
  | error e s' =>
    rw [EStateM.bind, hr] at h
    cases h

/-- Two actions in a row fail if one of them does. -/
theorem bind_eq_error {act : EStateM ε σ α} {next : α → EStateM ε σ β} {e : ε} {s s'' : σ}
    (h : (act >>= next) s = .error e s'') :
    act s = .error e s'' ∨ ∃ a s', act s = .ok a s' ∧ next a s' = .error e s'' := by
  change EStateM.bind act next s = .error e s'' at h
  cases hr : act s with
  | ok a s' =>
    refine Or.inr ⟨a, s', rfl, ?_⟩
    rwa [EStateM.bind, hr] at h
  | error f s' =>
    rw [EStateM.bind, hr] at h
    cases h
    exact Or.inl rfl

/-- An action for each item of a list fails if one of them does; those before it end well. -/
theorem mapM_eq_error {f : α → EStateM ε σ β} {e : ε} {s' : σ} : ∀ {items : List α} {s : σ},
    items.mapM f s = .error e s' → ∃ k a bs s₁, items[k]? = some a ∧
      (items.take k).mapM f s = .ok bs s₁ ∧ f a s₁ = .error e s'
  | [], s, h => by
    rw [List.mapM_nil] at h
    cases h
  | a :: rest, s, h => by
    rw [List.mapM_cons] at h
    rcases bind_eq_error h with h | ⟨b, s₁, hb, h⟩
    · exact ⟨0, a, [], s, rfl, by rw [List.take_zero, List.mapM_nil]; rfl, h⟩
    · rcases bind_eq_error h with h | ⟨bs, s₂, -, h⟩
      · obtain ⟨k, a', bs, s₂, hk, hbs, ha'⟩ := mapM_eq_error h
        refine ⟨k + 1, a', b :: bs, s₂, hk, ?_, ha'⟩
        rw [List.take_succ_cons, List.mapM_cons, bind_ok hb, bind_ok hbs]
        rfl
      · cases h

/-- An action for each item of a list gives a result for each. -/
theorem length_of_mapM_eq_ok {f : α → EStateM ε σ β} {items : List α} {bs : List β} {s s' : σ}
    (h : items.mapM f s = .ok bs s') : bs.length = items.length := by
  induction items generalizing bs s with
  | nil =>
    rw [List.mapM_nil] at h
    cases h
    rfl
  | cons a rest ih =>
    rw [List.mapM_cons] at h
    obtain ⟨b, s₁, -, h⟩ := bind_eq_ok h
    obtain ⟨bs', s₂, hrest, h⟩ := bind_eq_ok h
    cases h
    rw [List.length_cons, List.length_cons, ih hrest]

namespace Obeys

variable {R : σ → σ → Prop} {F : ε → Prop} {s : σ}

/-- What holds of an action that ended well. -/
theorem of_ok {act : EStateM ε σ α} {P : α → σ → Prop} {a : α} {s' : σ}
    (h : Obeys R F s act P) (he : act s = .ok a s') : R s s' ∧ P a s' := by
  unfold Obeys at h
  rw [he] at h
  exact h

/-- What holds of an action that failed. -/
theorem of_error {act : EStateM ε σ α} {P : α → σ → Prop} {e : ε} {s' : σ}
    (h : Obeys R F s act P) (he : act s = .error e s') : R s s' ∧ F e := by
  unfold Obeys at h
  rw [he] at h
  exact h

/-- Less may be said of the result and of the fault. -/
theorem imp {act : EStateM ε σ α} {P Q : α → σ → Prop} {G : ε → Prop} (h : Obeys R F s act P)
    (hP : ∀ a s', R s s' → P a s' → Q a s') (hF : ∀ e, F e → G e) : Obeys R G s act Q := by
  unfold Obeys at h ⊢
  cases hr : act s with
  | ok a s' =>
    rw [hr] at h
    exact ⟨h.1, hP a s' h.1 h.2⟩
  | error e s' =>
    rw [hr] at h
    exact ⟨h.1, hF e h.2⟩

/-- Less may be said of the result. -/
theorem mono {act : EStateM ε σ α} {P Q : α → σ → Prop} (h : Obeys R F s act P)
    (hP : ∀ a s', R s s' → P a s' → Q a s') : Obeys R F s act Q :=
  h.imp hP fun _ he => he

/-- A result that is there at once. -/
theorem pure [Std.Refl R] {P : α → σ → Prop} {a : α} (h : P a s) :
    Obeys R F s (Pure.pure a) P := ⟨refl s, h⟩

/-- The state itself. -/
theorem get [Std.Refl R] {P : σ → σ → Prop} (h : P s s) :
    Obeys R F s (MonadState.get : EStateM ε σ σ) P := ⟨refl s, h⟩

/-- A failure. -/
theorem throw [Std.Refl R] {P : α → σ → Prop} {e : ε} (h : F e) :
    Obeys R F s (MonadExcept.throw e : EStateM ε σ α) P := ⟨refl s, h⟩

/-- One action after the other. The second one is told what the first one did. -/
theorem bind [IsTrans σ R] {act : EStateM ε σ α} {next : α → EStateM ε σ β}
    {P : α → σ → Prop} {Q : β → σ → Prop} (h : Obeys R F s act P)
    (hn : ∀ a s', R s s' → P a s' → Obeys R F s' (next a) Q) :
    Obeys R F s (act >>= next) Q := by
  unfold Obeys at h ⊢
  show match EStateM.bind act next s with
    | .ok a s' => R s s' ∧ Q a s'
    | .error e s' => R s s' ∧ F e
  unfold EStateM.bind
  cases hr : act s with
  | error e s' =>
    rw [hr] at h
    exact h
  | ok a s' =>
    rw [hr] at h
    have ha := hn a s' h.1 h.2
    unfold Obeys at ha
    show match next a s' with
      | .ok b s'' => R s s'' ∧ Q b s''
      | .error e s'' => R s s'' ∧ F e
    cases hn' : next a s' with
    | ok b s'' =>
      rw [hn'] at ha
      exact ⟨IsTrans.trans _ _ _ h.1 ha.1, ha.2⟩
    | error e s'' =>
      rw [hn'] at ha
      exact ⟨IsTrans.trans _ _ _ h.1 ha.1, ha.2⟩

/-- Nothing comes after a failure. -/
theorem throw_bind [Std.Refl R] {next : α → EStateM ε σ β} {Q : β → σ → Prop} {e : ε} (h : F e) :
    Obeys R F s ((MonadExcept.throw e : EStateM ε σ α) >>= next) Q := ⟨refl s, h⟩

/-- An action for each item of a list, from left to right. What is said of the results has to stay
true while the later items are dealt with. -/
theorem mapM [Std.Refl R] [IsTrans σ R] {f : α → EStateM ε σ β} {P : β → σ → Prop}
    (stable : ∀ b s s', R s s' → P b s → P b s') :
    ∀ (items : List α) (s : σ), (∀ a ∈ items, ∀ s', R s s' → Obeys R F s' (f a) P) →
      Obeys R F s (items.mapM f) fun bs s' => ∀ b ∈ bs, P b s'
  | [], s, _ => by
    rw [List.mapM_nil]
    exact pure (by simp)
  | a :: rest, s, h => by
    rw [List.mapM_cons]
    refine bind (h a (by simp) s (refl s)) ?_
    intro b s₁ h₁ hb
    refine bind (mapM stable rest s₁ ?_) ?_
    · intro a' ha' s' hs'
      exact h a' (by simp [ha']) s' (IsTrans.trans _ _ _ h₁ hs')
    · intro bs s₂ h₂ hbs
      exact pure (List.forall_mem_cons.mpr ⟨stable b s₁ s₂ h₂ hb, hbs⟩)

end Obeys

end Scriptlet
