import Scriptlet.Proofs.Action
import Scriptlet.Proofs.Token.Sound

/-!
# What readers give

A reader only ever takes tokens from the front of its stream, so what is left of a sound stream is
sound (`Stream.Before`). `Reader.Yields r P` says that from every sound stream the reader gives
results with `P`, and fails with nothing but a fault of reading. The rules follow the readers of
`Token.Stream` one by one.
-/

namespace Scriptlet

/-- The second stream is what is left of the first one. -/
def Stream.Before (s s' : Stream) : Prop :=
  s'.pending <:+ s.pending ∧ ∀ f ∈ s'.failure, f ∈ s.failure

namespace Stream

instance : Std.Refl Before := ⟨fun s => ⟨List.suffix_refl s.pending, fun _ h => h⟩⟩

instance : IsTrans Stream Before :=
  ⟨fun _ _ _ h k => ⟨k.1.trans h.1, fun f hf => h.2 f (k.2 f hf)⟩⟩

/-- What is left of a sound stream is sound. -/
theorem Sound.before {s s' : Stream} (h : s.Sound) (hb : s.Before s') : s'.Sound where
  tokens t ht := h.tokens t (hb.1.subset ht)
  failure f hf := h.failure f (hb.2 f hf)

end Stream

namespace Reader

open Token

variable {α β : Type}

/-- From a stream, the reader takes tokens and gives a result with `P` or a fault of reading. -/
abbrev Gives (s : Stream) (r : Reader α) (P : α → Stream → Prop) : Prop :=
  Obeys Stream.Before Fault.OfReading s r P

/-- From every sound stream the reader gives results with `P`, or faults of reading. -/
def Yields (r : Reader α) (P : α → Prop) : Prop :=
  ∀ s : Stream, s.Sound → Gives s r fun a _ => P a

/-! ## Rules -/

theorem Yields.pure {P : α → Prop} {a : α} (h : P a) : Yields (Pure.pure a) P :=
  fun _ _ => Obeys.pure h

theorem Yields.bind {r : Reader α} {next : α → Reader β} {P : α → Prop} {Q : β → Prop}
    (h : Yields r P) (hn : ∀ a, P a → Yields (next a) Q) : Yields (r >>= next) Q := by
  intro s hs
  refine Obeys.bind (h s hs) ?_
  intro a s' hb ha
  exact hn a ha s' (hs.before hb)

theorem Yields.mono {r : Reader α} {P Q : α → Prop} (h : Yields r P) (hP : ∀ a, P a → Q a) :
    Yields r Q :=
  fun s hs => (h s hs).mono fun a _ _ ha => hP a ha

theorem Yields.throw {P : α → Prop} {f : Fault} (h : f.OfReading) :
    Yields (MonadExcept.throw f : Reader α) P :=
  fun _ _ => Obeys.throw h

/-- Running out of bounds is a fault of reading. -/
theorem Yields.overflow {P : α → Prop} : Yields (MonadExcept.throw .overflow : Reader α) P :=
  Yields.throw (Or.inr (Or.inr rfl))

/-! ## Single tokens -/

/-- Looking ahead changes nothing. -/
theorem peek_gives {s : Stream} (h : s.Sound) (k : Nat) :
    Gives s (peek k) fun t s' => s' = s ∧ t = s.pending[k]? := by
  unfold Gives Obeys peek
  cases ht : s.pending[k]? with
  | some t => exact ⟨refl s, rfl, rfl⟩
  | none =>
    cases hf : s.failure with
    | none => exact ⟨refl s, rfl, rfl⟩
    | some f =>
      refine ⟨⟨List.suffix_refl s.pending, ?_⟩, h.failure f hf⟩
      intro g hg
      simp at hg

/-- A token that can be seen is sound. -/
theorem peek_yields (k : Nat) : Yields (peek k) fun o => ∀ t ∈ o, t.Sound := by
  intro s hs
  refine (peek_gives hs k).mono ?_
  rintro _ s' _ ⟨rfl, rfl⟩ t ht
  exact hs.tokens t (List.mem_of_getElem? ht)

/-- A reader that goes by the next token knows which one it is. -/
theorem peek_bind_yields {next : Option Token → Reader β} {Q : β → Prop}
    (h : ∀ s : Stream, s.Sound → Gives s (next s.pending[0]?) fun b _ => Q b) :
    Yields (peek 0 >>= next) Q := by
  intro s hs
  refine Obeys.bind (peek_gives hs 0) ?_
  rintro o s' - ⟨rfl, rfl⟩
  exact h s' hs

theorem finished_yields : Yields finished fun _ => True :=
  (peek_yields 0).bind fun _ _ => .pure trivial

theorem diagnose_yields (problem : Problem) : Yields (diagnose problem) Fault.OfReading := by
  unfold diagnose
  refine (peek_yields 0).bind ?_
  intro o ho
  cases o with
  | some t => exact .pure (Or.inl rfl)
  | none =>
    intro s hs
    refine Obeys.bind (P := fun _ _ => True) (Obeys.get trivial) ?_
    intro now s' _ _
    cases now.last with
    | some t => exact Obeys.pure (Or.inl rfl)
    | none => exact Obeys.pure (Or.inl rfl)

/-- Failing gives whatever is asked for. -/
theorem fail_gives {s : Stream} (h : s.Sound) {P : α → Stream → Prop} (problem : Problem) :
    Gives s (fail problem) P :=
  Obeys.bind (diagnose_yields problem s h) fun _ _ _ hf => Obeys.throw hf

theorem fail_yields {P : α → Prop} (problem : Problem) : Yields (fail problem : Reader α) P :=
  fun _ hs => fail_gives hs problem

/-- Taking a token. -/
theorem advance_gives {s : Stream} (h : s.Sound) :
    Gives s advance fun t s' => s.pending = t :: s'.pending := by
  unfold advance
  refine Obeys.bind (peek_gives h 0) ?_
  rintro o s' - ⟨rfl, rfl⟩
  cases hp : s'.pending with
  | nil => exact fail_gives h .unexpectedEnd
  | cons t rest =>
    refine ⟨⟨?_, fun _ hf => hf⟩, ?_⟩
    · simp [hp]
    · simp [hp]

theorem advance_yields : Yields advance Token.Sound := by
  intro s hs
  refine (advance_gives hs).mono ?_
  intro t s' _ hp
  exact hs.tokens t (by rw [hp]; simp)

theorem check_gives {s : Stream} (h : s.Sound) (p : Pattern) (k : Nat) :
    Gives s (check p k) fun b s' => s' = s ∧ b = (s.pending[k]?).any p.accepts := by
  unfold check
  refine Obeys.bind (peek_gives h k) ?_
  rintro o s' - ⟨rfl, rfl⟩
  exact Obeys.pure ⟨rfl, rfl⟩

theorem check_yields (p : Pattern) (k : Nat) : Yields (check p k) fun _ => True :=
  fun _ hs => (check_gives hs p k).mono fun _ _ _ _ => trivial

theorem sees_yields (p : Pattern) : Yields (sees p) fun _ => True := check_yields p 0

/-- A token is taken if it is among those described; otherwise nothing happens. -/
theorem accept_gives {s : Stream} (h : s.Sound) (p : Pattern) :
    Gives s (accept p) fun o s' => match o with
      | some t => s.pending = t :: s'.pending ∧ p.accepts t = true
      | none => s' = s ∧ (s.pending[0]?).any p.accepts = false := by
  unfold accept sees
  refine Obeys.bind (check_gives h p 0) ?_
  rintro b s' - ⟨rfl, rfl⟩
  split
  · next ha =>
    refine Obeys.bind (advance_gives h) ?_
    intro t s'' _ hp
    refine Obeys.pure ⟨hp, ?_⟩
    rw [hp] at ha
    simpa using ha
  · next ha => exact Obeys.pure ⟨rfl, by simpa using ha⟩

theorem accept_yields (p : Pattern) :
    Yields (accept p) fun o => ∀ t ∈ o, t.Sound ∧ p.accepts t = true := by
  intro s hs
  refine (accept_gives hs p).mono ?_
  rintro o s' _ ho t ht
  cases ht
  exact ⟨hs.tokens t (by rw [ho.1]; simp), ho.2⟩

theorem skips_gives {s : Stream} (h : s.Sound) (p : Pattern) :
    Gives s (skips p) fun b s' =>
      b = (s.pending[0]?).any p.accepts ∧ (b = false → s' = s) := by
  unfold skips
  refine Obeys.bind (accept_gives h p) ?_
  intro o s' _ ho
  cases o with
  | some t => exact Obeys.pure ⟨by simp [ho.1, ho.2], by simp⟩
  | none => exact Obeys.pure ⟨by simp [ho.2], fun _ => ho.1⟩

theorem skips_yields (p : Pattern) : Yields (skips p) fun _ => True :=
  fun _ hs => (skips_gives hs p).mono fun _ _ _ _ => trivial

/-- The token that was expected. -/
theorem expectAs_gives {s : Stream} (h : s.Sound) (p : Pattern) (wanted : Wanted) :
    Gives s (expectAs p wanted) fun t s' => s.pending = t :: s'.pending ∧ p.accepts t = true := by
  unfold expectAs sees
  refine Obeys.bind (check_gives h p 0) ?_
  rintro b s' - ⟨rfl, rfl⟩
  split
  · next ha =>
    refine (advance_gives h).mono ?_
    intro t s'' _ hp
    rw [hp] at ha
    exact ⟨hp, by simpa using ha⟩
  · refine Obeys.bind (peek_gives h 0) ?_
    rintro o s'' - ⟨rfl, rfl⟩
    exact fail_gives h _

theorem expectAs_yields (p : Pattern) (wanted : Wanted) :
    Yields (expectAs p wanted) fun t => t.Sound ∧ p.accepts t = true := by
  intro s hs
  refine (expectAs_gives hs p wanted).mono ?_
  intro t s' _ ht
  exact ⟨hs.tokens t (by rw [ht.1]; simp), ht.2⟩

theorem expect_yields (p : Pattern) :
    Yields (expect p) fun t => t.Sound ∧ p.accepts t = true := expectAs_yields p p.wanted

/-- A token that is expected to be a name is a name. -/
theorem expectName_yields (wanted : Wanted) :
    Yields (expectAs (.any .name) wanted) fun t => Token.isName t.text = true := by
  refine (expectAs_yields _ _).mono ?_
  rintro t ⟨hs, ha⟩
  have hk : t.kind = .name := by simpa [Pattern.accepts, Pattern.any] using ha
  unfold Token.Sound at hs
  rw [hk] at hs
  exact hs

theorem pending_yields : Yields pending fun _ => True := by
  intro s hs
  exact ⟨refl s, trivial⟩

/-! ## Lists -/

/-- Items up to a closing token. -/
theorem itemsUntil_yields {close : Pattern} {item : List α → Reader α} {P : α → Prop}
    (h : ∀ found, Yields (item found) P) : ∀ (bound : List Token) (found : List α),
      (∀ a ∈ found, P a) → Yields (itemsUntil close item bound found) fun l => ∀ a ∈ l, P a
  | bound, found, hf => by
    unfold itemsUntil
    refine (skips_yields close).bind ?_
    intro b _
    split
    · exact .pure (by simpa using hf)
    · refine (h found).bind ?_
      intro a ha
      cases bound with
      | nil => exact .overflow
      | cons t bound =>
        refine itemsUntil_yields h bound (a :: found) ?_
        intro b hb
        rcases List.mem_cons.mp hb with rfl | hb
        · exact ha
        · exact hf b hb

theorem listUntil_yields {close : Pattern} {item : List α → Reader α} {P : α → Prop}
    (h : ∀ found, Yields (item found) P) : Yields (listUntil close item) fun l => ∀ a ∈ l, P a :=
  pending_yields.bind fun bound _ => itemsUntil_yields h bound [] (by simp)

theorem separator_yields (close : Pattern) : Yields (separator close) fun _ => True := by
  unfold separator
  refine (sees_yields close).bind ?_
  intro b _
  split
  · exact .pure trivial
  · exact (expect_yields _).bind fun _ _ => .pure trivial

theorem commaList_yields {close : Pattern} {item : Reader α} {P : α → Prop} (h : Yields item P) :
    Yields (commaList close item) fun l => ∀ a ∈ l, P a := by
  refine listUntil_yields ?_
  intro _
  refine h.bind ?_
  intro a ha
  exact (separator_yields close).bind fun _ _ => .pure ha

/-! ## Conditions -/

theorem or_yields {a b : Reader Bool} (ha : Yields a fun _ => True) (hb : Yields b fun _ => True) :
    Yields (a <||> b) fun _ => True := by
  refine ha.bind ?_
  intro x _
  cases x with
  | true => exact .pure trivial
  | false => exact hb

theorem and_yields {a b : Reader Bool} (ha : Yields a fun _ => True)
    (hb : Yields b fun _ => True) : Yields (a <&&> b) fun _ => True := by
  refine ha.bind ?_
  intro x _
  cases x with
  | true => exact hb
  | false => exact .pure trivial

end Reader

end Scriptlet
