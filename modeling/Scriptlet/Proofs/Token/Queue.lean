import Mathlib
import Scriptlet.Proofs.Token.Demand

/-!
# A stream is a queue

Readers look ahead, take tokens and fail in any order. Whatever they did before, what they get next
depends on two things only: how many tokens have been taken, and whether somebody has already looked
beyond the last one. `replies_of_queue` says so of any row of calls, failed ones included, and that
scanning on demand makes no difference to the replies.

* The tokens that were taken are the first ones of the text, in order.
* A call within the text is answered by the token that it looks at.
* The first call beyond the text raises the fault that scanning ended with, if there is one. No
  other call raises it, and for all others beyond the text is its end.

A `Call` is what can be asked, and `Call.log` pairs every call of a row with its reply. What one
call does is `read_queued`; what is left between two calls is described by the calls before
(`Remains`).
-/

namespace Scriptlet

open Token

/-! ## Calls and replies -/

/-- What can be asked of a stream. -/
inductive Call where
  | peek (k : Nat)
  | check (p : Pattern) (k : Nat)
  | accept (p : Pattern)
  | expect (p : Pattern) (wanted : Wanted)
  | advance
  | finished

/-- What a call that does not fail gives: a token that was seen, a judgement, or a token that was
taken. -/
inductive Answer where
  | seen (t : Option Token)
  | holds (b : Bool)
  | took (t : Option Token)

/-- An answer or a fault. -/
abbrev Reply := Except Fault Answer

/-- The outcome of a call with a reply. -/
def Reply.result {σ : Type} (reply : Reply) (s : σ) : EStateM.Result Fault σ Answer :=
  match reply with
  | .ok a => .ok a s
  | .error f => .error f s

/-- The token that was taken. -/
def Reply.token? : Reply → Option Token
  | .ok (.took t) => t
  | _ => none

namespace Call

/-- How far ahead a call looks. -/
def reach : Call → Nat
  | peek k => k
  | check _ k => k
  | _ => 0

/-- A call on a stream. -/
def read : Call → Reader Answer
  | peek k => do return .seen (← Reader.peek k)
  | check p k => do return .holds (← Reader.check p k)
  | accept p => do return .took (← Reader.accept p)
  | expect p wanted => do return .took (some (← Reader.expectAs p wanted))
  | advance => do return .took (some (← Reader.advance))
  | finished => do return .holds (← Reader.finished)

/-- A call on a text that is scanned on demand. -/
def fetch : Call → EStateM Fault Feed Answer
  | peek k => do return .seen (← Feed.peek k)
  | check p k => do return .holds (← Feed.check p k)
  | accept p => do return .took (← Feed.accept p)
  | expect p wanted => do return .took (some (← Feed.expectAs p wanted))
  | advance => do return .took (some (← Feed.advance))
  | finished => do return .holds (← Feed.finished)

/-- Calls one after the other, each with its reply. A failure does not keep the next call from being
made. -/
def log {σ : Type} (act : Call → EStateM Fault σ Answer) : List Call → σ → List (Call × Reply)
  | [], _ => []
  | c :: calls, s =>
    match act c s with
    | .ok a s' => (c, .ok a) :: log act calls s'
    | .error f s' => (c, .error f) :: log act calls s'

/-- The tokens that were taken by calls with these replies. -/
def taken (log : List (Call × Reply)) : List Token := log.filterMap fun turn => turn.2.token?

/-! ## What a queue replies -/

/-- The reply to a call that finds `ahead` as far ahead as it looks, `none` for the end of the text.
A failure is reported at a place. -/
def answer (c : Call) (ahead : Option Token) (place : Position) : Reply :=
  match c with
  | peek _ => .ok (.seen ahead)
  | check p _ => .ok (.holds (ahead.any p.accepts))
  | accept p => .ok (.took (ahead.filter p.accepts))
  | expect p wanted =>
    if ahead.any p.accepts then .ok (.took ahead)
    else .error (.misread (.expected wanted (ahead.map (·.text))) place)
  | advance =>
    match ahead with
    | some t => .ok (.took (some t))
    | none => .error (.misread .unexpectedEnd place)
  | finished => .ok (.holds ahead.isNone)

/-- Where a failure is reported after the first `n` tokens: at the next token, or at the last one
when there is no next. -/
def placeAfter (tokens : List Token) (n : Nat) : Position :=
  match (tokens.take (n + 1)).getLast? with
  | some t => t.position
  | none => Position.nowhere

/-- After earlier calls, the call looks beyond the last token. -/
def Beyond (tokens : List Token) (earlier : List (Call × Reply)) (c : Call) : Prop :=
  tokens.length ≤ (taken earlier).length + c.reach

/-- One of the calls looked beyond the last token. -/
def Exhausted (tokens : List Token) (log : List (Call × Reply)) : Prop :=
  ∃ earlier c reply, earlier ++ [(c, reply)] <+: log ∧ Beyond tokens earlier c

/-- The reply of a queue of tokens with a fault behind them to a call after earlier ones. -/
structure Queued (tokens : List Token) (fault : Option Fault) (earlier : List (Call × Reply))
    (c : Call) (reply : Reply) : Prop where
  within : ¬ Beyond tokens earlier c →
    reply = c.answer tokens[(taken earlier).length + c.reach]?
      (placeAfter tokens (taken earlier).length)
  ended : Beyond tokens earlier c → fault = none ∨ Exhausted tokens earlier →
    reply = c.answer none (placeAfter tokens (taken earlier).length)
  raised : ∀ f, fault = some f →
    (reply = .error f ↔ Beyond tokens earlier c ∧ ¬ Exhausted tokens earlier)

end Call

variable {tokens : List Token} {failure fault : Option Fault} {f : Fault} {n k : Nat}
  {earlier : List (Call × Reply)} {c : Call} {reply : Reply}

/-! ## The stream after some tokens -/

/-- The stream of some tokens of which the first `n` have been taken. -/
def Stream.past (tokens : List Token) (failure : Option Fault) (n : Nat) : Stream :=
  ⟨tokens.drop n, failure, (tokens.take n).getLast?⟩

namespace Reader

/-- Looking ahead without a fault. -/
theorem peek_past (h : n + k < tokens.length ∨ failure = none) :
    peek k (.past tokens failure n) = .ok tokens[n + k]? (.past tokens failure n) := by
  have hpending : (Stream.past tokens failure n).pending[k]? = tokens[n + k]? := List.getElem?_drop
  unfold peek
  rw [hpending]
  cases ht : tokens[n + k]? with
  | some t => rfl
  | none =>
    have hlength := List.getElem?_eq_none_iff.mp ht
    obtain rfl := h.resolve_left (by omega)
    rfl

/-- Looking beyond the last token when there is a fault behind it. -/
theorem peek_past_fault (h : tokens.length ≤ n + k) :
    peek k (.past tokens (some f) n) = .error f (.past tokens none n) := by
  have hpending : (Stream.past tokens (some f) n).pending[k]? = none :=
    List.getElem?_drop.trans (List.getElem?_eq_none_iff.mpr h)
  unfold peek
  rw [hpending]
  rfl

theorem diagnose_past {problem : Problem} (h : n < tokens.length ∨ failure = none) :
    diagnose problem (.past tokens failure n) =
      .ok (.misread problem (Call.placeAfter tokens n)) (.past tokens failure n) := by
  rw [diagnose, bind_ok (peek_past h), Call.placeAfter, List.take_add_one, Nat.add_zero]
  cases ht : tokens[n]? with
  | some t =>
    rw [Option.toList_some, List.getLast?_concat]
    rfl
  | none =>
    have hlast : (Stream.past tokens failure n).last = (tokens.take n).getLast? := rfl
    have hget : (get : Reader Stream) (.past tokens failure n) =
      .ok (.past tokens failure n) (.past tokens failure n) := rfl
    dsimp only
    rw [bind_ok hget, hlast, Option.toList_none, List.append_nil]
    cases (tokens.take n).getLast? with
    | some t => rfl
    | none => rfl

theorem fail_past {α : Type} {problem : Problem} (h : n < tokens.length ∨ failure = none) :
    (fail problem : Reader α) (.past tokens failure n) =
      .error (.misread problem (Call.placeAfter tokens n)) (.past tokens failure n) := by
  rw [fail, bind_ok (diagnose_past h)]
  rfl

theorem advance_past {t : Token} (h : tokens[n]? = some t) :
    advance (.past tokens failure n) = .ok t (.past tokens failure (n + 1)) := by
  obtain ⟨hn, -⟩ := List.getElem?_eq_some_iff.mp h
  rw [advance, bind_ok (peek_past (k := 0) (Or.inl hn)), Nat.add_zero, h]
  have hlast : (tokens.take (n + 1)).getLast? = some t := by
    rw [List.take_add_one, h, Option.toList_some, List.getLast?_concat]
  have hrest : (tokens.drop n).drop 1 = tokens.drop (n + 1) := List.drop_drop
  show EStateM.Result.ok t (Stream.mk ((tokens.drop n).drop 1) failure (some t)) = _
  rw [Stream.past, hlast, hrest]

end Reader

namespace Call

/-! ## One call -/

theorem taken_concat : taken (earlier ++ [(c, reply)]) = taken earlier ++ reply.token?.toList := by
  rw [taken, List.filterMap_append]
  cases h : reply.token? <;> simp [taken, h]

theorem exhausted_concat : Exhausted tokens (earlier ++ [(c, reply)]) ↔
    Exhausted tokens earlier ∨ Beyond tokens earlier c := by
  constructor
  · rintro ⟨before, d, r, hfront, hbeyond⟩
    rcases List.prefix_concat_iff.mp hfront with heq | hfront
    · obtain ⟨rfl, hturn⟩ := List.append_inj' heq rfl
      cases hturn
      exact Or.inr hbeyond
    · exact Or.inl ⟨before, d, r, hfront, hbeyond⟩
  · rintro (⟨before, d, r, hfront, hbeyond⟩ | hbeyond)
    · exact ⟨before, d, r, hfront.trans (List.prefix_append _ _), hbeyond⟩
    · exact ⟨earlier, c, reply, List.prefix_refl _, hbeyond⟩

/-- A call that looks beyond the last token raises the fault behind it. -/
theorem read_past_fault (h : tokens.length ≤ n + c.reach) :
    c.read (.past tokens (some f) n) = .error f (.past tokens none n) := by
  cases c with
  | peek k => exact bind_error (Reader.peek_past_fault h)
  | check p k => exact bind_error (bind_error (Reader.peek_past_fault h))
  | accept p => exact bind_error (bind_error (bind_error (Reader.peek_past_fault h)))
  | expect p wanted => exact bind_error (bind_error (bind_error (Reader.peek_past_fault h)))
  | advance => exact bind_error (bind_error (Reader.peek_past_fault h))
  | finished => exact bind_error (bind_error (Reader.peek_past_fault h))

/-- Judging the token ahead. -/
theorem check_past {p : Pattern} (h : n + k < tokens.length ∨ failure = none) :
    Reader.check p k (.past tokens failure n) =
      .ok (tokens[n + k]?.any p.accepts) (.past tokens failure n) :=
  bind_ok (Reader.peek_past h)

/-- Any other call is answered, and takes the token that it says. -/
theorem read_past (h : n + c.reach < tokens.length ∨ failure = none) :
    c.read (.past tokens failure n) =
      (c.answer tokens[n + c.reach]? (placeAfter tokens n)).result
        (.past tokens failure
          (n + (c.answer tokens[n + c.reach]? (placeAfter tokens n)).token?.toList.length)) := by
  cases c with
  | peek k => exact bind_ok (Reader.peek_past h)
  | check p k => exact bind_ok (check_past h)
  | finished => exact bind_ok (bind_ok (Reader.peek_past h))
  | advance =>
    dsimp only [reach, Nat.add_zero] at h ⊢
    cases ht : tokens[n]? with
    | some t => exact bind_ok (Reader.advance_past ht)
    | none =>
      have hpeek := Reader.peek_past (k := 0) h
      rw [Nat.add_zero, ht] at hpeek
      exact bind_error ((bind_ok hpeek).trans (Reader.fail_past h))
  | accept p =>
    dsimp only [reach, Nat.add_zero] at h ⊢
    have hsees := check_past (p := p) (k := 0) h
    rw [Nat.add_zero] at hsees
    rw [answer]
    cases ht : tokens[n]? with
    | none =>
      rw [ht] at hsees
      exact bind_ok (bind_ok hsees)
    | some t =>
      rw [ht] at hsees
      cases hp : p.accepts t with
      | true =>
        rw [Option.any_some, hp] at hsees
        rw [Option.filter_some_pos hp]
        exact bind_ok ((bind_ok hsees).trans (bind_ok (Reader.advance_past ht)))
      | false =>
        rw [Option.any_some, hp] at hsees
        rw [Option.filter_some_neg hp]
        exact bind_ok (bind_ok hsees)
  | expect p wanted =>
    dsimp only [reach, Nat.add_zero] at h ⊢
    have hsees := check_past (p := p) (k := 0) h
    have hpeek := Reader.peek_past (k := 0) h
    rw [Nat.add_zero] at hsees hpeek
    rw [answer]
    cases hp : tokens[n]?.any p.accepts with
    | true =>
      rw [hp] at hsees
      rw [if_pos rfl]
      cases ht : tokens[n]? with
      | none =>
        rw [ht] at hp
        cases hp
      | some t => exact bind_ok ((bind_ok hsees).trans (Reader.advance_past ht))
    | false =>
      rw [hp] at hsees
      rw [if_neg Bool.false_ne_true]
      exact bind_error ((bind_ok hsees).trans ((bind_ok hpeek).trans (Reader.fail_past h)))

/-- Only the next token is taken. -/
theorem token?_answer {ahead : Option Token} {place : Position} {t : Token}
    (h : (c.answer ahead place).token? = some t) : c.reach = 0 ∧ ahead = some t := by
  cases c with
  | peek k | check p k | finished => cases h
  | accept p =>
    refine ⟨rfl, ?_⟩
    exact (Option.filter_eq_some_iff.mp h).1
  | expect p wanted =>
    refine ⟨rfl, ?_⟩
    rw [answer] at h
    split at h
    · exact h
    · cases h
  | advance =>
    refine ⟨rfl, ?_⟩
    cases ahead with
    | some u => exact h
    | none => cases h

/-- The faults of a call itself: a token was wanted, or another one. -/
theorem answer_eq_error {ahead : Option Token} {place : Position}
    (h : c.answer ahead place = .error f) :
    f = .misread .unexpectedEnd place ∨
      ∃ wanted found, f = .misread (.expected wanted found) place := by
  cases c with
  | peek k | check p k | accept p | finished => cases h
  | expect p wanted =>
    rw [answer] at h
    split at h
    · cases h
    · cases h
      exact Or.inr ⟨_, _, rfl⟩
  | advance =>
    cases ahead with
    | some u => cases h
    | none =>
      cases h
      exact Or.inl rfl

/-- The fault that scanning ends with is none of a call itself. -/
theorem answer_ne_error_of_scan {source : String} {ahead : Option Token} {place : Position}
    (h : (scan source).2 = some f) : c.answer ahead place ≠ .error f := by
  have hcut := scanFrom_cut [] source.toList
  intro herror
  rcases answer_eq_error herror with rfl | ⟨wanted, found, rfl⟩
  · obtain ⟨earlier, rest, -, hbad, -⟩ := hcut.unreadable_of_fault h
    cases hbad
  · obtain ⟨earlier, rest, -, hbad, -⟩ := hcut.unreadable_of_fault h
    cases hbad

/-- What is left after earlier calls: they took the first tokens, and `failure` is the fault unless
one of them looked beyond the last token. -/
structure Remains (tokens : List Token) (fault : Option Fault) (earlier : List (Call × Reply))
    (failure : Option Fault) : Prop where
  front : taken earlier <+: tokens
  fresh : ¬ Exhausted tokens earlier → failure = fault
  cleared : Exhausted tokens earlier → failure = none

/-- One more token from the front. -/
theorem front_concat {t : Token} {first : List Token} (h : first <+: tokens)
    (ht : tokens[first.length]? = some t) : first ++ [t] <+: tokens := by
  obtain ⟨rest, rfl⟩ := h
  rw [List.getElem?_append_right (Nat.le_refl _), Nat.sub_self] at ht
  cases rest with
  | nil => cases ht
  | cons u rest =>
    cases ht
    exact ⟨rest, (List.append_cons first t rest).symm⟩

/-- A call that raises no fault from behind the last token is answered. -/
theorem answered_queued (h : Remains tokens fault earlier failure)
    (hquiet : ¬ Beyond tokens earlier c ∨ failure = none)
    (hfault : ∀ f, fault = some f → ∀ ahead place, c.answer ahead place ≠ .error f) :
    ∃ reply, c.read (.past tokens failure (taken earlier).length) =
        reply.result (.past tokens failure (taken (earlier ++ [(c, reply)])).length) ∧
      Queued tokens fault earlier c reply ∧
      Remains tokens fault (earlier ++ [(c, reply)]) failure := by
  have hwithin : (taken earlier).length + c.reach < tokens.length ∨ failure = none :=
    hquiet.imp_left Nat.lt_of_not_le
  have hread := read_past (c := c) hwithin
  generalize hreply : c.answer tokens[(taken earlier).length + c.reach]?
    (placeAfter tokens (taken earlier).length) = reply at hread
  have hqueued : Queued tokens fault earlier c reply := by
    refine ⟨fun _ => hreply.symm, ?_, ?_⟩
    · intro hbeyond _
      rw [← hreply, List.getElem?_eq_none_iff.mpr hbeyond]
    · intro f hf
      refine iff_of_false (hreply ▸ hfault f hf _ _) ?_
      rintro ⟨hbeyond, hfresh⟩
      have hnone := hquiet.resolve_left (not_not_intro hbeyond)
      rw [h.fresh hfresh, hf] at hnone
      cases hnone
  have hfront : taken (earlier ++ [(c, reply)]) <+: tokens := by
    rw [taken_concat]
    cases ht : reply.token? with
    | none =>
      rw [Option.toList_none, List.append_nil]
      exact h.front
    | some t =>
      rw [← hreply] at ht
      obtain ⟨hreach, hahead⟩ := token?_answer ht
      rw [hreach, Nat.add_zero] at hahead
      exact front_concat h.front hahead
  have hremains : Remains tokens fault (earlier ++ [(c, reply)]) failure := by
    refine ⟨hfront, ?_, ?_⟩
    · intro hexhausted
      rw [exhausted_concat, not_or] at hexhausted
      exact h.fresh hexhausted.1
    · intro hexhausted
      rcases exhausted_concat.mp hexhausted with hbefore | hbeyond
      · exact h.cleared hbefore
      · exact hquiet.resolve_left (not_not_intro hbeyond)
  refine ⟨reply, ?_, hqueued, hremains⟩
  rw [hread, taken_concat, List.length_append]

/-- What one call does. The reply is that of a queue, and what is left is described by the calls up
to this one. -/
theorem read_queued (h : Remains tokens fault earlier failure)
    (hfault : ∀ f, fault = some f → ∀ ahead place, c.answer ahead place ≠ .error f) :
    ∃ reply failure', c.read (.past tokens failure (taken earlier).length) =
        reply.result (.past tokens failure' (taken (earlier ++ [(c, reply)])).length) ∧
      Queued tokens fault earlier c reply ∧
      Remains tokens fault (earlier ++ [(c, reply)]) failure' := by
  cases failure with
  | none =>
    obtain ⟨reply, hread, hqueued, hremains⟩ := answered_queued h (Or.inr rfl) hfault
    exact ⟨reply, none, hread, hqueued, hremains⟩
  | some f =>
    by_cases hbeyond : Beyond tokens earlier c
    · -- the fault has not been raised before, and is raised now
      have hfresh : ¬ Exhausted tokens earlier := by
        intro hexhausted
        cases h.cleared hexhausted
      obtain rfl : some f = fault := h.fresh hfresh
      have hexhausted : Exhausted tokens (earlier ++ [(c, .error f)]) :=
        exhausted_concat.mpr (Or.inr hbeyond)
      have htaken : taken (earlier ++ [(c, .error f)]) = taken earlier := by
        rw [taken_concat]
        exact List.append_nil _
      have hqueued : Queued tokens (some f) earlier c (.error f) := by
        refine ⟨fun hnot => absurd hbeyond hnot, ?_, ?_⟩
        · rintro - (hnone | hbefore)
          · cases hnone
          · exact absurd hbefore hfresh
        · rintro g ⟨⟩
          exact iff_of_true rfl ⟨hbeyond, hfresh⟩
      have hremains : Remains tokens (some f) (earlier ++ [(c, .error f)]) none :=
        ⟨htaken ▸ h.front, fun hnot => absurd hexhausted hnot, fun _ => rfl⟩
      refine ⟨.error f, none, ?_, hqueued, hremains⟩
      rw [htaken]
      exact read_past_fault hbeyond
    · obtain ⟨reply, hread, hqueued, hremains⟩ := answered_queued h (Or.inl hbeyond) hfault
      exact ⟨reply, some f, hread, hqueued, hremains⟩

/-- A token that was seen is the one as many places ahead. -/
theorem Queued.getElem?_of_seen {t : Token}
    (h : Queued tokens fault earlier (.peek k) (.ok (.seen (some t)))) :
    tokens[(taken earlier).length + k]? = some t := by
  by_cases hbeyond : Beyond tokens earlier (.peek k)
  · by_cases hexhausted : Exhausted tokens earlier
    · cases h.ended hbeyond (Or.inr hexhausted)
    · cases fault with
      | none => cases h.ended hbeyond (Or.inl rfl)
      | some f => cases (h.raised f rfl).mpr ⟨hbeyond, hexhausted⟩
  · have hseen := h.within hbeyond
    injection hseen with hseen
    injection hseen with hseen
    exact hseen.symm

/-! ## Rows of calls -/

theorem log_cons {σ : Type} {act : Call → EStateM Fault σ Answer} {s s' : σ}
    (h : act c s = reply.result s') (calls : List Call) :
    log act (c :: calls) s = (c, reply) :: log act calls s' := by
  rw [log, h]
  cases reply <;> rfl

/-- Every call gets a reply. -/
theorem map_fst_log {σ : Type} (act : Call → EStateM Fault σ Answer) :
    ∀ (calls : List Call) (s : σ), (log act calls s).map Prod.fst = calls
  | [], _ => rfl
  | c :: calls, s => by
    rw [log]
    cases act c s with
    | ok a s' | error f s' => rw [List.map_cons, map_fst_log act calls s']

/-- The calls of a row get the replies of a queue, whatever was called before. -/
theorem log_queued
    (hfault : ∀ f, fault = some f → ∀ c ahead place, answer c ahead place ≠ .error f) :
    ∀ (calls : List Call) (earlier : List (Call × Reply)) (failure : Option Fault),
      Remains tokens fault earlier failure →
      let more := log read calls (.past tokens failure (taken earlier).length)
      taken (earlier ++ more) <+: tokens ∧
        ∀ before c reply, before ++ [(c, reply)] <+: more →
          Queued tokens fault (earlier ++ before) c reply
  | [], earlier, failure, h => by
    refine ⟨by rw [log, List.append_nil]; exact h.front, ?_⟩
    intro before c reply hfront
    rw [log, List.prefix_nil] at hfront
    simp at hfront
  | c :: calls, earlier, failure, h => by
    obtain ⟨reply, failure', hread, hqueued, hremains⟩ :=
      read_queued h fun f hf => hfault f hf c
    obtain ⟨htaken, hlater⟩ := log_queued hfault calls _ failure' hremains
    rw [log_cons hread]
    refine ⟨by simpa using htaken, ?_⟩
    intro before d r hfront
    cases before with
    | nil =>
      obtain ⟨heq, -⟩ := List.cons_prefix_cons.mp hfront
      cases heq
      rwa [List.append_nil]
    | cons turn before =>
      obtain ⟨rfl, hrest⟩ := List.cons_prefix_cons.mp hfront
      simpa using hlater before d r hrest

/-! ## On demand -/

theorem fetch_serves : ∀ c : Call, Feed.Serves c.fetch c.read
  | peek k => (Feed.peek_serves k).next fun t => .pure (Answer.seen t)
  | check p k => (Feed.check_serves p k).next fun b => .pure (Answer.holds b)
  | accept p => (Feed.accept_serves p).next fun t => .pure (Answer.took t)
  | expect p wanted => (Feed.expectAs_serves p wanted).next fun t => .pure (Answer.took (some t))
  | advance => Feed.advance_serves.next fun t => .pure (Answer.took (some t))
  | finished => Feed.finished_serves.next fun b => .pure (Answer.holds b)

/-- It makes no difference to the replies when the text is scanned. -/
theorem log_fetch : ∀ (calls : List Call) (s : Feed), log fetch calls s = log read calls s.view
  | [], _ => rfl
  | c :: calls, s => by
    have hpaired := (fetch_serves c).paired (rfl : Feed.view s = s.view)
    rw [log, log]
    generalize c.fetch s = outcome, c.read s.view = outcome' at hpaired
    cases hpaired with
    | ok hview | error hview =>
      subst hview
      exact congrArg _ (log_fetch calls _)

end Call

open Call

/-- A stream is a queue. For every source text and every row of calls, in any order and whether or
not earlier ones failed:

* the text may be scanned on demand, the replies are the same, and every call gets one;
* the tokens that were taken are the first ones of the text, in order;
* a call is answered by the token as far ahead as it looks, counted from those that were taken, or
  else by the end of the text;
* the fault that scanning ended with is raised by the first call that looks beyond the last token,
  and by no other; later calls that look there see the end of the text;
* a token that was seen is the one as many places ahead, and stays where it is. -/
theorem replies_of_queue (source : String) (calls : List Call) :
    let tokens := (scan source).1
    let log := Call.log Call.read calls (Stream.ofSource source)
    Call.log Call.fetch calls (Feed.ofSource source) = log ∧ log.map Prod.fst = calls ∧
      taken log <+: tokens ∧
      ∀ earlier c reply, earlier ++ [(c, reply)] <+: log →
        Queued tokens (scan source).2 earlier c reply ∧
        ∀ k t, c = .peek k → reply = .ok (.seen (some t)) →
          tokens[(taken earlier).length + k]? = some t ∧
            taken (earlier ++ [(c, reply)]) = taken earlier := by
  intro tokens log
  have hfault : ∀ f, (scan source).2 = some f → ∀ c ahead place, answer c ahead place ≠ .error f :=
    fun f hf c ahead place => answer_ne_error_of_scan hf
  have hbegin : Remains tokens (scan source).2 [] (scan source).2 := by
    refine ⟨List.nil_prefix, fun _ => rfl, ?_⟩
    rintro ⟨earlier, c, reply, hfront, -⟩
    simp at hfront
  obtain ⟨htaken, hqueued⟩ := log_queued hfault calls [] _ hbegin
  have hfetch : Call.log Call.fetch calls (Feed.ofSource source) = log := by
    rw [log_fetch, Feed.view_ofSource]
  refine ⟨hfetch, map_fst_log read calls _, htaken, ?_⟩
  intro earlier c reply hfront
  have hreply := hqueued earlier c reply hfront
  refine ⟨hreply, ?_⟩
  rintro k t rfl rfl
  refine ⟨hreply.getElem?_of_seen, ?_⟩
  rw [taken_concat]
  exact List.append_nil _

/-- Three tokens and a character that begins none. The first look beyond the tokens raises the
fault, also if it comes before any token was taken, and the next one sees the end of the text. -/
theorem replies_to_unreadable :
    let calls : List Call := [.peek 3, .peek 3, .advance, .peek 0, .accept (.op "-"),
      .expect (.op "=") (.lexeme "="), .check (.any .integer) 0, .advance, .finished, .advance]
    let log : List (Call × Reply) := [
      (.peek 3, .error (.misread (.unexpectedCharacter '@') ⟨1, 7⟩)),
      (.peek 3, .ok (.seen none)),
      (.advance, .ok (.took (some ⟨.name, "x", ⟨1, 1⟩⟩))),
      (.peek 0, .ok (.seen (some ⟨.op, "=", ⟨1, 3⟩⟩))),
      (.accept (.op "-"), .ok (.took none)),
      (.expect (.op "=") (.lexeme "="), .ok (.took (some ⟨.op, "=", ⟨1, 3⟩⟩))),
      (.check (.any .integer) 0, .ok (.holds true)),
      (.advance, .ok (.took (some ⟨.integer, "1", ⟨1, 5⟩⟩))),
      (.finished, .ok (.holds true)),
      (.advance, .error (.misread .unexpectedEnd ⟨1, 5⟩))]
    Call.log Call.read calls (Stream.ofSource "x = 1 @") = log ∧
      Call.log Call.fetch calls (Feed.ofSource "x = 1 @") = log ∧
      taken log <+: (scan "x = 1 @").1 := by
  intro calls log
  have hlog : Call.log Call.read calls (Stream.ofSource "x = 1 @") = log := by
    dsimp only [calls, log]
    cbv
  obtain ⟨hfetch, -, htaken, -⟩ := replies_of_queue "x = 1 @" calls
  rw [hlog] at hfetch htaken
  exact ⟨hlog, hfetch, htaken⟩

end Scriptlet
