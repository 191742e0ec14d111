import Scriptlet.Proofs.Action
import Scriptlet.Proofs.Simulation
import Scriptlet.Proofs.Token.Place
import Scriptlet.Token.Stream

/-!
# Scanning on demand

A stream holds all tokens of its text from the beginning. The text can as well be scanned as far as
somebody looks: a `Feed` keeps the tokens that were scanned but not yet taken in a buffer, and scans
on when a look goes beyond it. Once scanning has come to the end of the text or to something that
cannot be read, it is over, and the buffer is all there is.

`Feed.view` is the stream that a feed amounts to. Scanning on does not change it, apart from the
fault, which is no longer there after it has been raised. So looking ahead in a feed is looking
ahead in its view (`Feed.peek_serves`), and the other operations follow.
-/

namespace Scriptlet

open Token

/-! ## One token -/

/-- Scans the text behind a cursor up to its first token: the token, where the cursor is then, and
the rest. There is none if the text ends before. -/
def Token.scanOne (c : Cursor) (cs : List Char) :
    Except Fault (Option (Token × Cursor × List Char)) :=
  match _h : Lexeme.read? cs with
  | none =>
    match cs with
    | [] => .ok none
    | next :: _ => .error (.misread (.unexpectedCharacter next) c.position)
  | some (lexeme, rest) =>
    match ofLexeme c.position lexeme with
    | .error fault => .error fault
    | .ok none => scanOne (c.past lexeme) rest
    | .ok (some token) => .ok (some (token, c.past lexeme, rest))
termination_by cs.length
decreasing_by exact Lexeme.length_rest_lt (by assumption)

/-- Scanning a text is scanning its first token and then the rest. -/
theorem Token.scanFrom_eq_scanOne (c : Cursor) (cs : List Char) :
    scanFrom c cs [] =
      match scanOne c cs with
      | .error f => ([], some f)
      | .ok none => ([], none)
      | .ok (some (t, d, rest)) => (t :: (scanFrom d rest []).1, (scanFrom d rest []).2) := by
  fun_induction scanOne c cs with
  | case1 c hread => exact scanFrom_nil c []
  | case2 c next rest hread => exact scanFrom_unexpected hread c []
  | case3 c cs l rest hread f hl => exact scanFrom_refused hread hl []
  | case4 c cs l rest hread hl ih =>
    rw [scanFrom_lexeme hread hl []]
    exact ih
  | case5 c cs l rest hread t hl =>
    rw [scanFrom_lexeme hread hl [], scanFrom_found]
    rfl

/-! ## Feeds -/

/-- A text that is scanned as far as somebody looks: the tokens that were scanned but not yet taken,
the text that was not scanned yet and the cursor before it, and the token taken last. There is no
such text once scanning is over. -/
structure Feed where
  buffer : List Token
  unread : Option (Cursor × List Char)
  last : Option Token

namespace Feed

/-- The feed of a source text, of which nothing has been scanned yet. -/
def ofSource (source : String) : Feed := ⟨[], some (Cursor.start, source.toList), none⟩

/-- Scans one more token into the buffer and says whether there was one. -/
def pull : EStateM Fault Feed Bool := fun s =>
  match s.unread with
  | none => .ok false s
  | some (c, cs) =>
    match scanOne c cs with
    | .error f => .error f { s with unread := none }
    | .ok none => .ok false { s with unread := none }
    | .ok (some (t, d, rest)) =>
      .ok true { s with buffer := s.buffer ++ [t], unread := some (d, rest) }

/-- Scans as many more tokens, or up to the end of the text. -/
def fill : Nat → EStateM Fault Feed Unit
  | 0 => return
  | count + 1 => do if ← pull then fill count

/-- The token `k` places ahead, `none` at the end of the text. -/
def peek (k : Nat) : EStateM Fault Feed (Option Token) := do
  fill (k + 1 - (← get).buffer.length)
  return (← get).buffer[k]?

/-- Has the text ended? -/
def finished : EStateM Fault Feed Bool := do return (← peek 0).isNone

/-- The fault for a problem at the next token, or at the last one when there is no next. -/
def diagnose (problem : Problem) : EStateM Fault Feed Fault := do
  match ← peek 0 with
  | some t => return .misread problem t.position
  | none =>
    match (← get).last with
    | some t => return .misread problem t.position
    | none => return .misread problem Position.nowhere

/-- Fails with a problem at the next token. -/
def fail {α : Type} (problem : Problem) : EStateM Fault Feed α := do throw (← diagnose problem)

/-- Takes the next token from the buffer. -/
def advance : EStateM Fault Feed Token := do
  match ← peek 0 with
  | none => fail .unexpectedEnd
  | some t =>
    modify fun s => { s with buffer := s.buffer.drop 1, last := some t }
    return t

/-- Is the token `k` places ahead among those described? -/
def check (p : Pattern) (k : Nat) : EStateM Fault Feed Bool := do
  return (← peek k).any p.accepts

/-- Takes the next token if it is among those described. -/
def accept (p : Pattern) : EStateM Fault Feed (Option Token) := do
  if ← check p 0 then return some (← advance) else return none

/-- Takes the next token, which must be among those described. -/
def expectAs (p : Pattern) (wanted : Wanted) : EStateM Fault Feed Token := do
  if ← check p 0 then advance
  else fail (.expected wanted ((← peek 0).map (·.text)))

/-! ## The stream of a feed -/

/-- The tokens that are still to be scanned, and the fault behind them. -/
def ahead (s : Feed) : List Token × Option Fault :=
  match s.unread with
  | none => ([], none)
  | some (c, cs) => scanFrom c cs []

/-- The stream that a feed amounts to. -/
def view (s : Feed) : Stream := ⟨s.buffer ++ s.ahead.1, s.ahead.2, s.last⟩

theorem view_ofSource (source : String) : (ofSource source).view = Stream.ofSource source := rfl

/-! ## What scanning on does -/

/-- The outcome of scanning on from `s` for `count` more tokens: they are in the buffer, or the
buffer is all there is, or the fault behind the last token was raised. -/
inductive Filled (count : Nat) (s : Feed) : EStateM.Result Fault Feed Unit → Prop where
  | enough {s' : Feed} (same : s'.view = s.view)
      (long : s.buffer.length + count ≤ s'.buffer.length) : Filled count s (.ok () s')
  | ended {s' : Feed} (same : s'.view = s.view) (all : s.view.pending = s'.buffer)
      (clean : s.view.failure = none) : Filled count s (.ok () s')
  | raised {f : Fault} {s' : Feed} (cleared : s'.view = { s.view with failure := none })
      (fault : s.view.failure = some f)
      (short : s.view.pending.length < s.buffer.length + count) : Filled count s (.error f s')

/-- Scanning on for one token moves it into the buffer, and if there is none, says so. -/
theorem pull_spec (s : Feed) :
    (∃ t s', pull s = .ok true s' ∧ s'.view = s.view ∧ s'.buffer = s.buffer ++ [t]) ∨
      (∃ s', pull s = .ok false s' ∧ s'.view = s.view ∧ s.view.pending = s'.buffer ∧
        s.view.failure = none) ∨
      ∃ f s', pull s = .error f s' ∧ s'.view = { s.view with failure := none } ∧
        s.view.failure = some f ∧ s.view.pending = s.buffer := by
  obtain ⟨buffer, unread, last⟩ := s
  cases unread with
  | none => exact Or.inr (Or.inl ⟨_, rfl, rfl, List.append_nil _, rfl⟩)
  | some rest =>
    obtain ⟨c, cs⟩ := rest
    have hahead := scanFrom_eq_scanOne c cs
    simp only [pull, view, ahead]
    rw [hahead]
    cases scanOne c cs with
    | error f => exact Or.inr (Or.inr ⟨f, _, rfl, rfl, rfl, List.append_nil _⟩)
    | ok found =>
      cases found with
      | none => exact Or.inr (Or.inl ⟨_, rfl, rfl, List.append_nil _, rfl⟩)
      | some found =>
        refine Or.inl ⟨found.1, _, rfl, ?_, rfl⟩
        simp

theorem fill_spec : ∀ (count : Nat) (s : Feed), Filled count s (fill count s)
  | 0, s => .enough rfl (Nat.le_refl _)
  | count + 1, s => by
    obtain ⟨t, s₁, hpull, hview, hbuffer⟩ | ⟨s₁, hpull, hview, hall, hclean⟩ |
      ⟨f, s₁, hpull, hview, hfault, hall⟩ := pull_spec s
    · rw [fill, bind_ok hpull]
      have hlength : s₁.buffer.length = s.buffer.length + 1 := by
        rw [hbuffer, List.length_append, List.length_singleton]
      have hmore := fill_spec count s₁
      show Filled _ _ (fill count s₁)
      generalize fill count s₁ = outcome at hmore
      -- the same is said of the feed after one token, whose view is the same
      cases hmore with
      | enough same long => exact .enough (same.trans hview) (by omega)
      | ended same all clean =>
        rw [hview] at same all clean
        exact .ended same all clean
      | raised cleared fault short =>
        rw [hview] at cleared fault short
        exact .raised cleared fault (by omega)
    · rw [fill, bind_ok hpull]
      exact .ended hview hall hclean
    · rw [fill, bind_error hpull]
      refine .raised hview hfault ?_
      rw [hall]
      omega

theorem peek_eq (k : Nat) (s : Feed) :
    peek k s = match fill (k + 1 - s.buffer.length) s with
      | .ok _ s' => .ok s'.buffer[k]? s'
      | .error f s' => .error f s' := by
  have hget : (get : EStateM Fault Feed Feed) s = .ok s s := rfl
  rw [peek, bind_ok hget]
  cases hfill : fill (k + 1 - s.buffer.length) s with
  | ok _ s' =>
    rw [bind_ok hfill]
    rfl
  | error f s' => rw [bind_error hfill]

/-- From feeds and their views the two actions do the same. -/
abbrev Serves {α : Type} (act : EStateM Fault Feed α) (r : Reader α) : Prop :=
  Follows (fun s t => view s = t) id act r

/-- Looking ahead in a feed is looking ahead in the stream that it amounts to. -/
theorem peek_serves (k : Nat) : Serves (peek k) (Reader.peek k) := by
  constructor
  rintro s _ rfl
  have hfill := fill_spec (k + 1 - s.buffer.length) s
  have hpending : s.view.pending = s.buffer ++ s.ahead.1 := rfl
  rw [peek_eq]
  generalize fill (k + 1 - s.buffer.length) s = outcome at hfill
  unfold Reader.peek
  cases hfill with
  | @enough s' same long =>
    -- the token is in the buffer, and so in the view
    have hk : k < s'.buffer.length := by omega
    have ht : s.view.pending[k]? = some s'.buffer[k] := by
      rw [← same]
      exact (List.getElem?_append_left hk).trans (List.getElem?_eq_getElem hk)
    rw [ht]
    show Paired _ id (.ok s'.buffer[k]? s') _
    rw [List.getElem?_eq_getElem hk]
    exact .ok same
  | @ended s' same all clean =>
    rw [clean, all]
    show Paired _ id (.ok s'.buffer[k]? s') _
    cases s'.buffer[k]? with
    | some t => exact .ok same
    | none => exact .ok same
  | @raised f s' cleared fault short =>
    have hnone : s.view.pending[k]? = none := by
      rw [List.getElem?_eq_none_iff]
      rw [hpending, List.length_append] at short ⊢
      omega
    rw [hnone, fault]
    exact .error cleared

/-! ## The operations -/

theorem finished_serves : Serves finished Reader.finished :=
  (peek_serves 0).next fun t => .pure t.isNone

theorem diagnose_serves (problem : Problem) :
    Serves (diagnose problem) (Reader.diagnose problem) := by
  refine (peek_serves 0).next fun t => ?_
  cases t with
  | some t => exact .pure _
  | none =>
    constructor
    rintro ⟨buffer, unread, last⟩ _ rfl
    cases last with
    | some t => exact .ok rfl
    | none => exact .ok rfl

theorem fail_serves {α : Type} (problem : Problem) :
    Serves (fail problem : EStateM Fault Feed α) (Reader.fail problem) :=
  (diagnose_serves problem).next fun f => .throw f

/-- A token that was seen is in the buffer. -/
theorem getElem?_buffer_of_peek {k : Nat} {o : Option Token} {s s' : Feed}
    (h : peek k s = .ok o s') : s'.buffer[k]? = o := by
  rw [peek_eq] at h
  cases hfill : fill (k + 1 - s.buffer.length) s with
  | ok _ s₁ =>
    rw [hfill] at h
    cases h
    rfl
  | error f s₁ =>
    rw [hfill] at h
    cases h

theorem advance_serves : Serves advance Reader.advance := by
  constructor
  rintro s _ rfl
  have hpaired := (peek_serves 0).paired (rfl : view s = view s)
  cases hpeek : peek 0 s with
  | error f s₁ =>
    rw [hpeek] at hpaired
    generalize hread : Reader.peek 0 s.view = r at hpaired
    cases hpaired with
    | error hview =>
      rw [advance, bind_error hpeek, Reader.advance, bind_error hread]
      exact .error hview
  | ok o s₁ =>
    rw [hpeek] at hpaired
    generalize hread : Reader.peek 0 s.view = r at hpaired
    cases hpaired with
    | ok hview =>
      rw [advance, bind_ok hpeek, Reader.advance, bind_ok hread]
      cases o with
      | none => exact (fail_serves _).paired hview
      | some t =>
        -- the token is the first one in the buffer, so it is taken from there
        have hfirst := getElem?_buffer_of_peek hpeek
        obtain ⟨buffer, unread, last⟩ := s₁
        cases buffer with
        | nil => cases hfirst
        | cons u buffer =>
          subst hview
          exact .ok rfl

theorem check_serves (p : Pattern) (k : Nat) : Serves (check p k) (Reader.check p k) :=
  (peek_serves k).next fun t => .pure (t.any p.accepts)

theorem accept_serves (p : Pattern) : Serves (accept p) (Reader.accept p) :=
  (check_serves p 0).next fun _ => .ite (advance_serves.next fun t => .pure (some t)) (.pure none)

theorem expectAs_serves (p : Pattern) (wanted : Wanted) :
    Serves (expectAs p wanted) (Reader.expectAs p wanted) :=
  (check_serves p 0).next fun _ =>
    .ite advance_serves ((peek_serves 0).next fun _ => fail_serves _)

end Feed

end Scriptlet
