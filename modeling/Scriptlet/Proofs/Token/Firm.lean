import Scriptlet.Proofs.Token.Layout
import Scriptlet.Proofs.Token.Progress

/-!
# Readers stop before the next declaration

A reader looks at the token behind those that it takes, to see whether it should go on. Where the
text has ended there is none. If declarations were to follow there would be one, but it would be one
of the keywords that a declaration begins with, and no construct goes on with such a keyword.

`Firm us r` : whatever the reader `r` gives at the end of a text, it also gives if the tokens `us`
follow, and it leaves them all. The rules follow the readers of `Token.Stream` one by one. A reader
may ask for a keyword that begins a declaration as long as there is a token to look at; one that
takes a token has failed otherwise (`firm_of_steady`).
-/

namespace Scriptlet

/-! ## What follows -/

/-- The keywords that a declaration can begin with. -/
def Token.openers : List String := ["export", "fn", "const", "var", "module"]

/-- The token is a keyword that a declaration can begin with. -/
structure Token.Opens (t : Token) : Prop where
  kind : t.kind = .keyword
  text : t.text ∈ Token.openers

/-- None of the tokens described begins a declaration. -/
def Token.Pattern.isInner (p : Token.Pattern) : Bool :=
  p.kind != .keyword || p.text.any (!Token.openers.contains ·)

theorem Token.Opens.accepts_eq_false {t : Token} (h : t.Opens) {p : Token.Pattern}
    (hp : p.isInner = true) : p.accepts t = false := by
  obtain ⟨kind, text⟩ := p
  rw [Token.Pattern.accepts, h.kind]
  rcases Bool.or_eq_true_iff.mp hp with hkind | htext
  · have hne : (Token.Kind.keyword == kind) = false := beq_false_of_ne (bne_iff_ne.mp hkind).symm
    rw [hne, Bool.false_and]
  · cases text with
    | none => cases htext
    | some text =>
      have hout : text ∉ Token.openers := by simpa using htext
      have hne : text ≠ t.text := by
        rintro rfl
        exact hout h.text
      simp [hne]

theorem Token.Opens.moved {t u : Token} (h : t.Opens) (hu : u.unplaced = t.unplaced) : u.Opens := by
  have hkind : u.kind = t.kind := congrArg (·.kind) hu
  have htext : u.text = t.text := congrArg (·.text) hu
  exact ⟨hkind.trans h.kind, htext ▸ h.text⟩

/-- Two streams of texts that can be scanned to their ends: behind what is to come in the first one,
the second one goes on with tokens that begin a declaration, if there are any. -/
structure Stream.GoesOn (us : List Token) (s t : Stream) : Prop where
  pending : t.pending = s.pending ++ us
  opening : ∀ u ∈ us.head?, u.Opens
  first : s.failure = none
  second : t.failure = none

namespace Reader

open Token

variable {α β : Type} {us : List Token} {s t : Stream}

/-- Where `r` succeeds on a stream, `r'` gives the same if the tokens follow, and leaves them. -/
def FirmAt (us : List Token) (s : Stream) (r r' : Reader α) : Prop :=
  ∀ t, s.GoesOn us t → ∀ a s', r s = .ok a s' → ∃ t', r' t = .ok a t' ∧ s'.GoesOn us t'

/-- Where the reader succeeds, it gives the same if the tokens follow, and leaves them. -/
def Firm (us : List Token) (r : Reader α) : Prop := ∀ s, FirmAt us s r r

/-- The reader only looks ahead, and sees the same whether the tokens follow or not. -/
def Agrees (us : List Token) (s : Stream) (r : Reader α) : Prop :=
  ∀ t, s.GoesOn us t → ∀ a s', r s = .ok a s' → s' = s ∧ r t = .ok a t

/-! ## Rules -/

section

variable {r r' other other' : Reader α}

theorem FirmAt.bind {next next' : α → Reader β} (h : FirmAt us s r r')
    (hn : ∀ a s', r s = .ok a s' → FirmAt us s' (next a) (next' a)) :
    FirmAt us s (r >>= next) (r' >>= next') := by
  intro t ht b s'' hb
  obtain ⟨a, s', ha, hb⟩ := bind_eq_ok hb
  obtain ⟨t', ha', ht'⟩ := h t ht a s' ha
  obtain ⟨t'', hb', ht''⟩ := hn a s' ha t' ht' b s'' hb
  exact ⟨t'', by rw [bind_ok ha', hb'], ht''⟩

/-- Where a reader does not succeed nothing is asked for. -/
theorem FirmAt.of_not_ok (h : ∀ a s', r s ≠ .ok a s') : FirmAt us s r r' :=
  fun _ _ a s' ha => absurd ha (h a s')

theorem FirmAt.throw (f : Fault) : FirmAt us s (MonadExcept.throw f) r' := .of_not_ok nofun

/-- Looking ahead, and then reading from the same stream. -/
theorem Agrees.next {next next' : α → Reader β} (h : Agrees us s r)
    (hn : ∀ a, r s = .ok a s → FirmAt us s (next a) (next' a)) :
    FirmAt us s (r >>= next) (r >>= next') := by
  intro t ht b s'' h'
  obtain ⟨a, s', ha, hb⟩ := bind_eq_ok h'
  obtain ⟨rfl, ha'⟩ := h t ht a s' ha
  obtain ⟨t'', hb', ht''⟩ := hn a ha t ht b s'' hb
  exact ⟨t'', by rw [bind_ok ha', hb'], ht''⟩

theorem Agrees.map (h : Agrees us s r) (f : α → β) : Agrees us s (do return f (← r)) := by
  intro t ht b s'' h'
  obtain ⟨a, s', ha, hb⟩ := bind_eq_ok h'
  obtain ⟨rfl, ha'⟩ := h t ht a s' ha
  cases hb
  exact ⟨rfl, by rw [bind_ok ha']; rfl⟩

theorem FirmAt.ite {c : Prop} [Decidable c] (h : FirmAt us s r r') (ho : FirmAt us s other other') :
    FirmAt us s (if c then r else other) (if c then r' else other') := by
  split
  · exact h
  · exact ho

theorem Firm.ite {c : Prop} [Decidable c] (h : Firm us r) (ho : Firm us other) :
    Firm us (if c then r else other) :=
  fun s => .ite (h s) (ho s)

theorem Firm.next {next : α → Reader β} (h : Firm us r) (hn : ∀ a, Firm us (next a)) :
    Firm us (r >>= next) :=
  fun s => (h s).bind fun a s' _ => hn a s'

theorem Firm.pure (a : α) : Firm us (Pure.pure a : Reader α) := by
  intro s t ht b s' hb
  cases hb
  exact ⟨t, rfl, ht⟩

theorem Firm.throw (f : Fault) : Firm us (MonadExcept.throw f : Reader α) :=
  fun _ => .throw f

/-- A reader that takes a token has succeeded only where there is one. -/
theorem firm_of_steady {d n : Nat} (h : Steady d n 1 r r)
    (hf : ∀ s, s.pending ≠ [] → FirmAt us s r r) : Firm us r := by
  intro s t ht a s' ha
  obtain ⟨taken, front, hlength⟩ := ((h s).took a s' ha).tokens
  have hne : s.pending ≠ [] := by
    rw [front]
    exact List.append_ne_nil_of_left_ne_nil (List.ne_nil_of_length_pos hlength) _
  exact hf s hne t ht a s' ha

end

/-! ## Single tokens -/

theorem fail_ne_ok {problem : Problem} {a : α} {s' : Stream} : fail problem s ≠ .ok a s' := by
  intro h
  obtain ⟨f, s₁, -, h⟩ := bind_eq_ok h
  cases h

theorem fail_firm (problem : Problem) : Firm us (fail problem : Reader α) :=
  fun _ => .of_not_ok fun _ _ => fail_ne_ok

theorem peek_of_failure_none (h : t.failure = none) (k : Nat) :
    peek k t = .ok t.pending[k]? t := by
  unfold peek
  rw [h]
  cases t.pending[k]? <;> rfl

/-- A token that is there is seen in both. -/
theorem peek_agrees {k : Nat} (hk : k < s.pending.length) : Agrees us s (peek k) := by
  intro t ht o s' ho
  obtain ⟨rfl, rfl⟩ := peek_eq_ok ho
  refine ⟨rfl, ?_⟩
  rw [peek_of_failure_none ht.second, ht.pending, List.getElem?_append_left hk]

/-- Where the text has ended, the other one may go on with a keyword that begins a declaration. A
look ahead that cannot tell the two apart sees the same. -/
theorem peek_map_agrees {f : Option Token → α} (hf : ∀ u : Token, u.Opens → f (some u) = f none)
    {k : Nat} (hk : k ≤ s.pending.length) : Agrees us s (do return f (← peek k)) := by
  rcases Nat.lt_or_eq_of_le hk with hlt | rfl
  · exact (peek_agrees hlt).map f
  · intro t ht b s' h
    obtain ⟨o, s₁, ho, hb⟩ := bind_eq_ok h
    obtain ⟨rfl, rfl⟩ := peek_eq_ok ho
    have hnext : t.pending[s₁.pending.length]? = us.head? := by
      rw [ht.pending, List.getElem?_append_right (Nat.le_refl _), Nat.sub_self,
        List.head?_eq_getElem?]
    have hsame : f us.head? = f none := by
      cases hu : us.head? with
      | none => rfl
      | some u => exact hf u (ht.opening u hu)
    rw [List.getElem?_eq_none (Nat.le_refl _)] at hb
    cases hb
    refine ⟨rfl, ?_⟩
    rw [bind_ok (peek_of_failure_none ht.second _), hnext, hsame]
    rfl

theorem check_agrees {p : Pattern} (hp : p.isInner = true) {k : Nat}
    (hk : k ≤ s.pending.length) : Agrees us s (check p k) :=
  peek_map_agrees (fun _ hu => hu.accepts_eq_false hp) hk

/-- A reader that goes by the next token and fails where there is none. -/
theorem peek_firm {next : Option Token → Reader β} (hnone : ∀ s b s', next none s ≠ .ok b s')
    (hsome : ∀ t, Firm us (next (some t))) : Firm us (peek 0 >>= next) := by
  intro s
  by_cases hs : s.pending = []
  · refine .of_not_ok ?_
    intro b s' h
    obtain ⟨o, s₁, ho, hb⟩ := bind_eq_ok h
    obtain ⟨rfl, rfl⟩ := peek_eq_ok ho
    rw [hs] at hb
    exact hnone s₁ b s' hb
  · refine (peek_agrees (List.length_pos_iff.mpr hs)).next fun o _ => ?_
    cases o with
    | none => exact .of_not_ok (hnone s)
    | some t => exact hsome t s

/-- As long as there is a token, any token may be asked for. -/
theorem sees_agrees (hs : s.pending ≠ []) (p : Pattern) : Agrees us s (sees p) :=
  (peek_agrees (List.length_pos_iff.mpr hs)).map _

theorem sees_agrees_inner {p : Pattern} (hp : p.isInner = true) (s : Stream) :
    Agrees us s (sees p) :=
  check_agrees hp (Nat.zero_le _)

/-- What is seen is there. -/
theorem sees_eq_ok {p : Pattern} {seen : Bool} {s' : Stream} (h : sees p s = .ok seen s') :
    s' = s ∧ (seen = true → ∃ u rest, s.pending = u :: rest ∧ p.accepts u = true) := by
  obtain ⟨o, s₁, ho, hseen⟩ := bind_eq_ok h
  obtain ⟨rfl, rfl⟩ := peek_eq_ok ho
  cases hseen
  refine ⟨rfl, ?_⟩
  intro htrue
  cases hp : s'.pending with
  | nil =>
    rw [hp] at htrue
    cases htrue
  | cons u rest =>
    rw [hp] at htrue
    exact ⟨u, rest, rfl, htrue⟩

theorem advance_firm : Firm us advance := by
  refine firm_of_steady (advance_steady (d := 0) (t := 0)) ?_
  intro s hs t ht a s' ha
  cases hp : s.pending with
  | nil => exact absurd hp hs
  | cons first rest =>
    have hadvance : ∀ s : Stream, s.pending.head? = some first →
        advance s = .ok first { s with pending := s.pending.drop 1, last := some first } := by
      intro s hfirst
      have hpeek : peek 0 s = .ok (some first) s := by
        rw [peek, ← List.head?_eq_getElem?, hfirst]
      rw [advance, bind_ok hpeek]
      rfl
    rw [hadvance s (by rw [hp]; rfl)] at ha
    cases ha
    refine ⟨_, hadvance t (by rw [ht.pending, hp]; rfl), ⟨?_, ht.opening, ht.first, ht.second⟩⟩
    rw [ht.pending, hp]
    rfl

theorem accept_firmAt {p : Pattern} (h : Agrees us s (sees p)) :
    FirmAt us s (accept p) (accept p) :=
  h.next fun _ _ => .ite (advance_firm.next (fun t => .pure (some t)) s) (Firm.pure none s)

theorem accept_firm {p : Pattern} (hp : p.isInner = true) : Firm us (accept p) :=
  fun s => accept_firmAt (sees_agrees_inner hp s)

theorem skips_firmAt {p : Pattern} (h : Agrees us s (sees p)) :
    FirmAt us s (skips p) (skips p) :=
  (accept_firmAt h).bind fun _ s' _ => Firm.pure _ s'

theorem skips_firm {p : Pattern} (hp : p.isInner = true) : Firm us (skips p) :=
  fun s => skips_firmAt (sees_agrees_inner hp s)

theorem expectAs_firm (p : Pattern) (wanted : Wanted) : Firm us (expectAs p wanted) := by
  refine firm_of_steady (expectAs_steady (d := 0) (t := 0) p wanted) fun s hs => ?_
  refine (sees_agrees hs p).next fun _ _ => .ite (advance_firm s) ?_
  exact (peek_agrees (List.length_pos_iff.mpr hs)).next fun _ _ => fail_firm _ s

theorem expect_firm (p : Pattern) : Firm us (expect p) := expectAs_firm p p.wanted

/-! ## Loops -/

/-- A loop has at least as many tokens in its bound if others follow. -/
theorem pending_firm {next : List Token → Reader β}
    (h : ∀ bound bound' : List Token, bound.length ≤ bound'.length →
      FirmAt us s (next bound) (next bound')) :
    FirmAt us s (pending >>= next) (pending >>= next) := by
  intro t ht b s' hb
  refine h s.pending t.pending ?_ t ht b s' hb
  rw [ht.pending, List.length_append]
  exact Nat.le_add_right _ _

theorem itemsUntil_firm {close : Pattern} (hclose : close.isInner = true)
    {item : List α → Reader α} (h : ∀ found, Firm us (item found)) :
    ∀ (bound bound' : List Token) (found : List α) (s : Stream), bound.length ≤ bound'.length →
      FirmAt us s (itemsUntil close item bound found) (itemsUntil close item bound' found)
  | bound, bound', found, s, hb => by
    unfold itemsUntil
    refine (skips_firm hclose s).bind fun _ s₁ _ => .ite (Firm.pure _ s₁) ?_
    refine (h found s₁).bind fun a s₂ _ => ?_
    cases bound with
    | nil => exact .throw _
    | cons first bound =>
      cases bound' with
      | nil => cases hb
      | cons first' bound' =>
        exact itemsUntil_firm hclose h bound bound' (a :: found) s₂ (Nat.le_of_succ_le_succ hb)

theorem listUntil_firm {close : Pattern} (hclose : close.isInner = true)
    {item : List α → Reader α} (h : ∀ found, Firm us (item found)) :
    Firm us (listUntil close item) :=
  fun s => pending_firm fun bound bound' hb => itemsUntil_firm hclose h bound bound' [] s hb

theorem separator_firm {close : Pattern} (hclose : close.isInner = true) :
    Firm us (separator close) :=
  fun s => (sees_agrees_inner hclose s).next fun _ _ =>
    .ite (Firm.pure _ s) ((expect_firm _).next (fun _ => .pure _) s)

theorem commaList_firm {close : Pattern} (hclose : close.isInner = true) {item : Reader α}
    (h : Firm us item) : Firm us (commaList close item) :=
  listUntil_firm hclose fun _ => h.next fun a => (separator_firm hclose).next fun _ => .pure a

/-! ## Conditions -/

theorem or_agrees {a b : Reader Bool} (ha : Agrees us s a) (hb : Agrees us s b) :
    Agrees us s (a <||> b) := by
  intro t ht x s'' hx
  obtain ⟨y, s', hy, hx⟩ := bind_eq_ok hx
  obtain ⟨rfl, hy'⟩ := ha t ht y s' hy
  have hfirst : (a <||> b) t = _ := bind_ok hy'
  rw [hfirst]
  cases y with
  | true =>
    cases hx
    exact ⟨rfl, rfl⟩
  | false => exact hb t ht x s'' hx

theorem and_agrees {a b : Reader Bool} (ha : Agrees us s a) (hb : Agrees us s b) :
    Agrees us s (a <&&> b) := by
  intro t ht x s'' hx
  obtain ⟨y, s', hy, hx⟩ := bind_eq_ok hx
  obtain ⟨rfl, hy'⟩ := ha t ht y s' hy
  have hfirst : (a <&&> b) t = _ := bind_ok hy'
  rw [hfirst]
  cases y with
  | true => exact hb t ht x s'' hx
  | false =>
    cases hx
    exact ⟨rfl, rfl⟩

end Reader

end Scriptlet
