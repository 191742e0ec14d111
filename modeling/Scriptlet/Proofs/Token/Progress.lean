import Scriptlet.Proofs.Token.Yield

/-!
# Readers make progress

Reading is bounded in two ways: the readers of the grammar count down a nesting depth, and every
loop counts down the tokens that there were at its beginning. Neither bound is ever in the way as
long as there is a token for each step, so what is counted here is tokens.

`Steady d t k r r'` says of a reader `r` that it takes at least `k` tokens whenever it succeeds, and
that it does not run out of bounds where there is room: where the depth `d` suffices for five levels
for each token to come and `t` levels more. There a second reader `r'`, the same one at another
depth, does exactly the same.

A token that is taken leaves room for five levels more, and lets a loop go round once more
(`again_steady`). The rules follow the readers of `Token.Stream` one by one.
-/

namespace Scriptlet

/-! ## Streams -/

namespace Stream

/-- On the way from one stream to the other at least `k` tokens were taken from the front. -/
structure Took (k : Nat) (s s' : Stream) : Prop where
  tokens : ∃ taken, s.pending = taken ++ s'.pending ∧ k ≤ taken.length
  failure : s'.failure = s.failure

/-- The depth `d` suffices for five levels for each token to come and `t` more. -/
structure Room (d t : Nat) (s : Stream) : Prop where
  failure : s.failure ≠ some .overflow
  depth : 5 * s.pending.length + t ≤ d

variable {s s' s'' : Stream} {j k d t : Nat}

theorem Took.refl (s : Stream) : Took 0 s s := ⟨⟨[], rfl, Nat.le_refl 0⟩, rfl⟩

theorem Took.trans (h : Took k s s') (h' : Took j s' s'') : Took (k + j) s s'' := by
  obtain ⟨first, hfirst, hk⟩ := h.tokens
  obtain ⟨later, hlater, hj⟩ := h'.tokens
  refine ⟨⟨first ++ later, ?_, ?_⟩, h'.failure.trans h.failure⟩
  · rw [hfirst, hlater, List.append_assoc]
  · rw [List.length_append]
    omega

theorem Took.mono (h : Took k s s') (hj : j ≤ k) : Took j s s' := by
  obtain ⟨taken, hp, hk⟩ := h.tokens
  exact ⟨⟨taken, hp, Nat.le_trans hj hk⟩, h.failure⟩

theorem Took.length_le (h : Took k s s') : s'.pending.length + k ≤ s.pending.length := by
  obtain ⟨taken, hp, hk⟩ := h.tokens
  rw [hp, List.length_append]
  omega

theorem Took.before (h : Took k s s') : s.Before s' := by
  obtain ⟨taken, front, -⟩ := h.tokens
  exact ⟨⟨taken, front.symm⟩, fun f hf => h.failure ▸ hf⟩

/-- Every token that is taken makes room. -/
theorem Took.room (h : Took k s s') (hr : s.Room d t) : s'.Room d (t + 5 * k) := by
  refine ⟨h.failure ▸ hr.failure, ?_⟩
  have := h.length_le
  have := hr.depth
  omega

theorem Room.mono {t' : Nat} (h : s.Room d t) (ht : t' ≤ t) : s.Room d t' :=
  ⟨h.failure, by have := h.depth; omega⟩

end Stream

namespace Reader

open Token

variable {α β : Type} {d t k : Nat} {s : Stream}

/-- From a stream `r` takes tokens, as many as `k` says, and does not run out of bounds where there
is room; there `r'` does the same. -/
structure SteadyAt (d t : Nat) (k : α → Nat) (s : Stream) (r r' : Reader α) : Prop where
  took : ∀ a s', r s = .ok a s' → s.Took (k a) s'
  bounded : s.Room d t → ∀ f s', r s = .error f s' → f ≠ .overflow
  same : s.Room d t → r' s = r s

/-- From every stream `r` takes at least `k` tokens and does not run out of bounds where there is
room; there `r'` does the same. -/
def Steady (d t k : Nat) (r r' : Reader α) : Prop := ∀ s, SteadyAt d t (fun _ => k) s r r'

/-! ## Rules -/

/-- One reader after the other. What the first one took the second one need not take, and has as
room. -/
theorem SteadyAt.bind {j : β → Nat} {k : α → Nat} {r r' : Reader α} {next next' : α → Reader β}
    (h : SteadyAt d t k s r r')
    (hn : ∀ a s', r s = .ok a s' → s.Took (k a) s' →
      SteadyAt d (t + 5 * k a) (fun b => j b - k a) s' (next a) (next' a)) :
    SteadyAt d t j s (r >>= next) (r' >>= next') where
  took := by
    intro b s'' hb
    obtain ⟨a, s', ha, hb⟩ := bind_eq_ok hb
    have hfirst := h.took a s' ha
    exact (hfirst.trans ((hn a s' ha hfirst).took b s'' hb)).mono (by omega)
  bounded := by
    intro room f s'' hf
    rcases bind_eq_error hf with hf | ⟨a, s', ha, hf⟩
    · exact h.bounded room f s'' hf
    · have hfirst := h.took a s' ha
      exact (hn a s' ha hfirst).bounded (hfirst.room room) f s'' hf
  same := by
    intro room
    have heq := h.same room
    cases hr : r s with
    | ok a s' =>
      have hfirst := h.took a s' hr
      rw [bind_ok hr, bind_ok (heq.trans hr)]
      exact (hn a s' hr hfirst).same (hfirst.room room)
    | error f s' => rw [bind_error hr, bind_error (heq.trans hr)]

theorem SteadyAt.mono {k j : α → Nat} {t' : Nat} {r r' : Reader α} (h : SteadyAt d t k s r r')
    (ht : t ≤ t') (hj : ∀ a, j a ≤ k a) : SteadyAt d t' j s r r' where
  took a s' ha := (h.took a s' ha).mono (hj a)
  bounded room := h.bounded (room.mono ht)
  same room := h.same (room.mono ht)

/-- More room may be given. -/
theorem Steady.within {t' : Nat} {r r' : Reader α} (h : Steady d t k r r') (ht : t ≤ t') :
    Steady d t' k r r' :=
  fun s => (h s).mono ht fun _ => Nat.le_refl k

/-- No tokens need be asked for. -/
theorem Steady.any {r r' : Reader α} (h : Steady d t k r r') : Steady d t 0 r r' :=
  fun s => (h s).mono (Nat.le_refl t) fun _ => Nat.zero_le k

theorem SteadyAt.pure {k : α → Nat} {a : α} (h : k a = 0) :
    SteadyAt d t k s (Pure.pure a) (Pure.pure a) where
  took := by
    intro b s' hb
    cases hb
    rw [h]
    exact .refl s
  bounded := by
    intro _ f s' hf
    cases hf
  same _ := rfl

theorem Steady.pure (a : α) : Steady d t 0 (Pure.pure a : Reader α) (Pure.pure a) :=
  fun _ => .pure rfl

/-- A failure within bounds. -/
theorem Steady.throw {f : Fault} (h : f ≠ .overflow) :
    Steady d t k (MonadExcept.throw f : Reader α) (MonadExcept.throw f) := by
  intro s
  refine ⟨?_, ?_, fun _ => rfl⟩
  · intro a s' ha
    cases ha
  · intro _ g s' hg
    cases hg
    exact h

/-- Nothing comes after a failure. -/
theorem Steady.throw_bind {f : Fault} (h : f ≠ .overflow) (next next' : α → Reader β) :
    Steady d t k (MonadExcept.throw f >>= next) (MonadExcept.throw f >>= next') := by
  intro s
  refine (Steady.throw (k := 0) h s).bind ?_
  intro a s' ha _
  cases ha

/-- One reader after another that need not take a token. -/
theorem Steady.next {r r' : Reader α} {next next' : α → Reader β} (h : Steady d t 0 r r')
    (hn : ∀ a, Steady d t k (next a) (next' a)) : Steady d t k (r >>= next) (r' >>= next') :=
  fun s => (h s).bind fun a s' _ _ => hn a s'

/-- One reader after another that takes a token. -/
theorem Steady.after {r r' : Reader α} {next next' : α → Reader β} (h : Steady d t 1 r r')
    (hn : ∀ a, Steady d (t + 5) 0 (next a) (next' a)) : Steady d t 1 (r >>= next) (r' >>= next') :=
  fun s => (h s).bind fun a s' _ _ => hn a s'

/-- A result that is changed on the way out. -/
theorem Steady.map {r r' : Reader α} (h : Steady d t k r r') (f : α → β) :
    Steady d t k (do return f (← r)) (do return f (← r')) := by
  intro s
  refine (h s).bind fun a s' _ _ => ?_
  exact SteadyAt.pure (by simp)

/-- A choice between two readers. -/
theorem Steady.ite {c : Prop} [Decidable c] {r r' other other' : Reader α} (h : Steady d t k r r')
    (ho : Steady d t k other other') :
    Steady d t k (if c then r else other) (if c then r' else other') := by
  split
  · exact h
  · exact ho

/-- A reader that goes by the stream. -/
theorem Steady.of_stream {next next' : Stream → Reader α}
    (h : ∀ s, SteadyAt d t (fun _ => k) s (next s) (next' s)) :
    Steady d t k (get >>= next) (get >>= next') :=
  fun s => ⟨(h s).took, (h s).bounded, (h s).same⟩

/-- A depth that is one more leaves room for one level more. -/
theorem Steady.deeper {r r' : Reader α} (h : Steady d t k r r') :
    Steady (d + 1) (t + 1) k r r' := by
  intro s
  have less : s.Room (d + 1) (t + 1) → s.Room d t :=
    fun room => ⟨room.failure, by have := room.depth; omega⟩
  exact ⟨(h s).took, fun room => (h s).bounded (less room), fun room => (h s).same (less room)⟩

/-- At depth zero there is no room. -/
theorem Steady.zero {f : Fault} {r : Reader α} :
    Steady 0 (t + 1) k (MonadExcept.throw f : Reader α) r := by
  intro s
  have full : ¬ s.Room 0 (t + 1) := fun room => by have := room.depth; omega
  refine ⟨?_, fun room => absurd room full, fun room => absurd room full⟩
  intro a s' ha
  cases ha

/-! ## Single tokens -/

/-- What is seen ahead. -/
theorem peek_eq_ok {i : Nat} {o : Option Token} {s' : Stream} (h : peek i s = .ok o s') :
    s' = s ∧ o = s.pending[i]? := by
  unfold peek at h
  split at h
  · next heq =>
    cases h
    exact ⟨rfl, heq.symm⟩
  · next heq =>
    split at h
    · cases h
      exact ⟨rfl, heq.symm⟩
    · cases h

/-- Looking ahead fails with the fault behind the tokens. -/
theorem peek_eq_error {i : Nat} {f : Fault} {s' : Stream} (h : peek i s = .error f s') :
    s.failure = some f := by
  unfold peek at h
  split at h
  · cases h
  · split at h
    · cases h
    · next heq =>
      cases h
      exact heq

/-- Looking ahead takes nothing. -/
theorem peek_steady (i : Nat) : Steady d t 0 (peek i) (peek i) := by
  intro s
  refine ⟨?_, ?_, fun _ => rfl⟩
  · intro o s' ho
    obtain ⟨rfl, -⟩ := peek_eq_ok ho
    exact .refl s'
  · rintro room f s' hf rfl
    exact room.failure (peek_eq_error hf)

theorem finished_steady : Steady d t 0 finished finished := (peek_steady 0).map _

theorem diagnose_steady (problem : Problem) :
    Steady d t 0 (diagnose problem) (diagnose problem) := by
  refine (peek_steady 0).next fun o => ?_
  cases o with
  | some t => exact .pure _
  | none =>
    refine .of_stream fun s => ?_
    cases s.last with
    | some t => exact .pure rfl
    | none => exact .pure rfl

/-- A diagnosis is about a place in the text. -/
theorem diagnose_ne_overflow {problem : Problem} {f : Fault} {s' : Stream}
    (h : diagnose problem s = .ok f s') : f ≠ .overflow := by
  obtain ⟨o, s₁, -, h⟩ := bind_eq_ok h
  cases o with
  | some t =>
    cases h
    exact fun heq => nomatch heq
  | none =>
    obtain ⟨now, s₂, -, h⟩ := bind_eq_ok h
    cases hl : now.last with
    | some t | none =>
      rw [hl] at h
      cases h
      exact fun heq => nomatch heq

/-- Failing takes as many tokens as anyone asks for. -/
theorem fail_steady (problem : Problem) :
    Steady d t k (fail problem : Reader α) (fail problem) := by
  intro s
  refine (diagnose_steady problem s).bind ?_
  intro f s' hf _
  exact Steady.throw (diagnose_ne_overflow hf) s'

theorem fail_bind (problem : Problem) (next next' : α → Reader β) :
    Steady d t k (fail problem >>= next) (fail problem >>= next') := by
  intro s
  refine (fail_steady (k := 0) problem s).bind ?_
  intro a s' ha _
  obtain ⟨f, s₁, -, ha⟩ := bind_eq_ok ha
  cases ha

/-- Taking a token. -/
theorem advance_steady : Steady d t 1 advance advance := by
  intro s
  refine (peek_steady 0 s).bind ?_
  intro o s' ho _
  obtain ⟨rfl, rfl⟩ := peek_eq_ok ho
  cases hp : s'.pending with
  | nil => exact fail_steady .unexpectedEnd s'
  | cons first rest =>
    refine ⟨?_, ?_, fun _ => rfl⟩
    · intro a s'' ha
      cases ha
      exact ⟨⟨[first], by simp [hp], Nat.le_refl 1⟩, rfl⟩
    · intro _ f s'' hf
      cases hf

theorem check_steady (p : Pattern) (i : Nat) : Steady d t 0 (check p i) (check p i) :=
  (peek_steady i).map _

theorem sees_steady (p : Pattern) : Steady d t 0 (sees p) (sees p) := check_steady p 0

/-- A token that was accepted was taken. -/
theorem accept_steadyAt (p : Pattern) :
    SteadyAt d t (fun o => if o.isSome then 1 else 0) s (accept p) (accept p) := by
  refine (sees_steady p s).bind ?_
  intro seen s' _ _
  split
  · refine (advance_steady s').bind ?_
    intro first s'' _ _
    exact SteadyAt.pure rfl
  · exact SteadyAt.pure rfl

theorem accept_steady (p : Pattern) : Steady d t 0 (accept p) (accept p) :=
  fun _ => (accept_steadyAt p).mono (Nat.le_refl t) fun _ => Nat.zero_le _

theorem skips_steadyAt (p : Pattern) :
    SteadyAt d t (fun b => if b then 1 else 0) s (skips p) (skips p) := by
  refine (accept_steadyAt p).bind ?_
  intro o s' _ _
  exact SteadyAt.pure (Nat.sub_self _)

theorem skips_steady (p : Pattern) : Steady d t 0 (skips p) (skips p) := (accept_steady p).map _

/-- A reader that goes on with a token more if it is among those described, and as before if not. -/
theorem skips_next {p : Pattern} {next next' : Bool → Reader β}
    (ht : Steady d (t + 5) 0 (next true) (next' true))
    (hf : Steady d t 1 (next false) (next' false)) :
    Steady d t 1 (skips p >>= next) (skips p >>= next') := by
  intro s
  refine (skips_steadyAt p).bind ?_
  intro b s' _ _
  cases b with
  | true => exact ht s'
  | false => exact hf s'

theorem expectAs_steady (p : Pattern) (wanted : Wanted) :
    Steady d t 1 (expectAs p wanted) (expectAs p wanted) := by
  refine (sees_steady p).next fun seen => ?_
  split
  · exact advance_steady
  · exact (peek_steady 0).next fun o => fail_steady _

theorem expect_steady (p : Pattern) : Steady d t 1 (expect p) (expect p) :=
  expectAs_steady p p.wanted

/-! ## Loops -/

/-- A loop has the tokens to come as its bound. -/
theorem pending_next {next next' : List Token → Reader β}
    (h : ∀ s, SteadyAt d t (fun _ => k) s (next s.pending) (next' s.pending)) :
    Steady d t k (pending >>= next) (pending >>= next') := .of_stream h

/-- Goes round again, unless the bound of a loop is reached. -/
def again (next : List Token → Reader α) : List Token → Reader α
  | [] => MonadExcept.throw .overflow
  | _ :: rest => next rest

/-- A loop that has taken a token goes round again: it had one in its bound. -/
theorem again_steady {k : α → Nat} {bound : List Token} {s' : Stream}
    {next next' : List Token → Reader α} (hb : s.pending.length ≤ bound.length)
    (hless : s'.pending.length < s.pending.length)
    (hn : ∀ rest, s'.pending.length ≤ rest.length → SteadyAt d t k s' (next rest) (next' rest)) :
    SteadyAt d t k s' (again next bound) (again next' bound) := by
  cases bound with
  | nil => exact absurd (Nat.lt_of_lt_of_le hless hb) (Nat.not_lt_zero _)
  | cons first rest =>
    rw [List.length_cons] at hb
    exact hn rest (by omega)

/-- Items up to a closing token. -/
theorem itemsUntil_steady {close : Pattern} {item item' : List α → Reader α}
    (h : ∀ found, Steady d t 1 (item found) (item' found)) :
    ∀ (bound : List Token) (found : List α) (s : Stream), s.pending.length ≤ bound.length →
      SteadyAt d t (fun _ => 1) s (itemsUntil close item bound found)
        (itemsUntil close item' bound found)
  | bound, found, s, hb => by
    unfold itemsUntil
    refine (skips_steadyAt close).bind ?_
    intro b s₁ _ h₁
    cases b with
    | true => exact SteadyAt.pure rfl
    | false =>
      refine (h found s₁).bind ?_
      intro a s₂ _ h₂
      have hless : s₂.pending.length < s.pending.length := (h₁.trans h₂).length_le
      refine again_steady hb hless fun rest hrest => ?_
      exact (itemsUntil_steady h rest (a :: found) s₂ hrest).mono (by omega) fun _ => Nat.zero_le _
termination_by _ _ s => s.pending.length

theorem listUntil_steady {close : Pattern} {item item' : List α → Reader α}
    (h : ∀ found, Steady d t 1 (item found) (item' found)) :
    Steady d t 1 (listUntil close item) (listUntil close item') :=
  pending_next fun s => itemsUntil_steady h s.pending [] s (Nat.le_refl _)

theorem separator_steady (close : Pattern) : Steady d t 0 (separator close) (separator close) := by
  refine (sees_steady close).next fun seen => ?_
  split
  · exact .pure _
  · exact (expect_steady _).any.next fun _ => .pure _

theorem commaList_steady {close : Pattern} {item item' : Reader α} (h : Steady d t 1 item item') :
    Steady d t 1 (commaList close item) (commaList close item') := by
  refine listUntil_steady fun _ => ?_
  exact h.after fun a => (separator_steady close).next fun _ => .pure a

/-! ## Conditions -/

theorem or_steady {a b : Reader Bool} (ha : Steady d t 0 a a) (hb : Steady d t 0 b b) :
    Steady d t 0 (a <||> b) (a <||> b) := by
  refine ha.next fun x => ?_
  cases x with
  | true => exact .pure true
  | false => exact hb

theorem and_steady {a b : Reader Bool} (ha : Steady d t 0 a a) (hb : Steady d t 0 b b) :
    Steady d t 0 (a <&&> b) (a <&&> b) := by
  refine ha.next fun x => ?_
  cases x with
  | true => exact hb
  | false => exact .pure false

end Reader

end Scriptlet
