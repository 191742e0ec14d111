import Mathlib
import Scriptlet.Proofs.Action
import Scriptlet.Proofs.Grammar.Composed
import Scriptlet.Proofs.Token.Place

/-!
# Where problems are reported

Every problem of a source text has a place in it: that of the next token, that of the last token if
there is no next one, or that of a name that is repeated in a list of parameters. A lexeme that
cannot be read is a problem as well; it comes up as soon as a reader looks that far, even if the
reader is about to report something else.

The readers keep to the tokens of the text: what is left of them and the one that was taken last say
how far the reading is (`Stream.Along`). As every reader is put together from a few actions
(`Composed`), it is enough to see where these report their problems.

* `Stream.Accuses` : the token that a problem is reported at.
* `Stream.Blames` : the faults that reading can end in.
* `Reader.Accounts` : a reader goes on along the tokens, or ends in one of these faults.
-/

namespace Scriptlet

open Token.Pattern

theorem Fault.eq_misread_of_kind {f : Fault} (h : f.kind = .reading) :
    ∃ problem place, f = .misread problem place := by
  cases f with
  | misread problem place => exact ⟨problem, place, rfl⟩
  | _ => cases h

/-! ## Streams -/

/-- The token can stand between the parentheses of a list of parameters. -/
def Token.Listable (t : Token) : Prop :=
  t.kind = .name ∨ (punct ",").accepts t = true ∨ (op "...").accepts t = true

namespace Stream

variable {ts : List Token} {failure : Option Fault} {s s' : Stream}

/-- The stream is what is left of the tokens; the others were taken, and it knows the last one. -/
def Along (ts : List Token) (s : Stream) : Prop :=
  ∃ taken, ts = taken ++ s.pending ∧ s.last = taken.getLast?

/-- The stream is what is left of the tokens, with the fault behind them still to come. -/
structure Amid (ts : List Token) (failure : Option Fault) (s : Stream) : Prop where
  along : s.Along ts
  failure : s.failure = failure

/-- The token that a problem is reported at: the next one, the last one of a text that has ended, or
a name that is there already in the list of parameters that is being read. -/
inductive Accuses (ts : List Token) (failure : Option Fault) (s : Stream) : Problem → Token → Prop
  | next {problem : Problem} {t : Token} (ahead : s.pending.head? = some t) :
      Accuses ts failure s problem t
  | last {problem : Problem} {t : Token} (complete : failure = none) (ended : s.pending = [])
      (final : ts.getLast? = some t) : Accuses ts failure s problem t
  | repeated {before list : List Token} {opening t : Token}
      (tokens : ts = before ++ opening :: (list ++ t :: s.pending))
      (opens : (punct "(").accepts opening = true) (listed : ∀ u ∈ list, u.Listable)
      (name : t.kind = .name) (again : ∃ u ∈ list, u.kind = .name ∧ u.text = t.text) :
      Accuses ts failure s (.duplicateParameter t.text) t

/-- The faults that reading can end in: a problem at a token, what the scanning ended in, and faults
that are no problem of the text. -/
inductive Blames (ts : List Token) (failure : Option Fault) (s : Stream) : Fault → Prop
  | token {problem : Problem} {t : Token} (h : s.Accuses ts failure problem t) :
      Blames ts failure s (.misread problem t.position)
  | scanner {f : Fault} (h : failure = some f) : Blames ts failure s f
  | other {f : Fault} (h : f.kind ≠ .reading) : Blames ts failure s f

theorem Accuses.mem {problem : Problem} {t : Token} (h : s.Accuses ts failure problem t)
    (along : s.Along ts) : t ∈ ts := by
  cases h with
  | next ahead =>
    obtain ⟨taken, rfl, -⟩ := along
    exact List.mem_append_right taken (List.mem_of_mem_head? ahead)
  | last _ _ final => exact List.mem_of_getLast? final
  | repeated tokens _ _ _ _ =>
    rw [tokens]
    simp

/-- Taking a token is going on along the tokens. -/
theorem Along.take {t : Token} {rest : List Token} (h : s.Along ts) (hp : s.pending = t :: rest) :
    Along ts { s with pending := rest, last := some t } := by
  obtain ⟨taken, rfl, -⟩ := h
  exact ⟨taken ++ [t], by simp [hp], by simp⟩

end Stream

namespace Reader

open Token

variable {α β : Type} {ts : List Token} {failure : Option Fault} {s : Stream}

/-- From a stream, the reader goes on along the tokens and gives a result with `P`, or ends in one
of the faults that reading can end in. -/
def Accounts (ts : List Token) (failure : Option Fault) (s : Stream) (r : Reader α)
    (P : α → Stream → Prop) : Prop :=
  match r s with
  | .ok a s' => s'.Amid ts failure ∧ P a s'
  | .error f s' => s'.Along ts ∧ s'.Blames ts failure f

namespace Accounts

theorem pure {P : α → Stream → Prop} {a : α} (hs : s.Amid ts failure) (h : P a s) :
    Accounts ts failure s (Pure.pure a) P := ⟨hs, h⟩

theorem throw {P : α → Stream → Prop} {f : Fault} (hs : s.Amid ts failure)
    (h : s.Blames ts failure f) : Accounts ts failure s (MonadExcept.throw f) P := ⟨hs.along, h⟩

variable {r : Reader α} {P : α → Stream → Prop}

theorem of_ok {a : α} {s' : Stream} (h : Accounts ts failure s r P) (he : r s = .ok a s') :
    s'.Amid ts failure ∧ P a s' := by
  unfold Accounts at h
  rwa [he] at h

theorem of_error {f : Fault} {s' : Stream} (h : Accounts ts failure s r P)
    (he : r s = .error f s') : s'.Along ts ∧ s'.Blames ts failure f := by
  unfold Accounts at h
  rwa [he] at h

theorem bind {next : α → Reader β} {Q : β → Stream → Prop} (h : Accounts ts failure s r P)
    (hn : ∀ a s', s'.Amid ts failure → P a s' → Accounts ts failure s' (next a) Q) :
    Accounts ts failure s (r >>= next) Q := by
  unfold Accounts
  cases hr : r s with
  | ok a s' =>
    obtain ⟨hs', ha⟩ := h.of_ok hr
    rw [bind_ok hr]
    exact hn a s' hs' ha
  | error f s' =>
    rw [bind_error hr]
    exact h.of_error hr

theorem mono {Q : α → Stream → Prop} (h : Accounts ts failure s r P)
    (hPQ : ∀ a s', P a s' → Q a s') : Accounts ts failure s r Q := by
  unfold Accounts
  cases hr : r s with
  | ok a s' => exact (h.of_ok hr).imp_right (hPQ a s')
  | error f s' => exact h.of_error hr

end Accounts

/-! ## Single tokens -/

/-- A look ahead sees the token, or that the text has ended, or it meets what cannot be scanned. -/
theorem peek_accounts (hs : s.Amid ts failure) (k : Nat) :
    Accounts ts failure s (peek k) fun o s' =>
      s' = s ∧ o = s.pending[k]? ∧ (o = none → failure = none) := by
  unfold Accounts peek
  cases ht : s.pending[k]? with
  | some t => exact ⟨hs, rfl, rfl, nofun⟩
  | none =>
    cases hf : s.failure with
    | none => exact ⟨hs, rfl, rfl, fun _ => hs.failure ▸ hf⟩
    | some f => exact ⟨hs.along, .scanner (hs.failure ▸ hf)⟩

/-- A text that has not ended has tokens. -/
theorem finished_accounts (hs : s.Amid ts failure) :
    Accounts ts failure s finished fun ended _ => ended = false → ts ≠ [] := by
  refine (peek_accounts hs 0).bind ?_
  rintro o s' - ⟨rfl, ho, -⟩
  refine .pure hs ?_
  rintro hsome rfl
  obtain ⟨taken, htaken, -⟩ := hs.along
  rw [ho, (List.append_eq_nil_iff.mp htaken.symm).2] at hsome
  cases hsome

/-- A problem is reported at the next token, or at the last one. -/
theorem fail_accounts (hts : ts ≠ []) (hs : s.Amid ts failure) (problem : Problem)
    {P : α → Stream → Prop} : Accounts ts failure s (fail problem) P := by
  refine Accounts.bind (P := fun f s' => s'.Blames ts failure f) ?_ ?_
  · refine (peek_accounts hs 0).bind ?_
    rintro o s' - ⟨rfl, ho, hnone⟩
    cases o with
    | some t => exact .pure hs (.token (.next (List.head?_eq_getElem? ▸ ho.symm)))
    | none =>
      -- nothing is to come, so all tokens were taken, and the last one was taken last
      have ended : s'.pending = [] := List.head?_eq_none_iff.mp (List.head?_eq_getElem? ▸ ho.symm)
      obtain ⟨taken, htaken, hlast⟩ := hs.along
      rw [ended, List.append_nil] at htaken
      subst htaken
      refine Accounts.bind (P := fun state s => state = s' ∧ s = s') ⟨hs, rfl, rfl⟩ ?_
      rintro _ _ - ⟨rfl, rfl⟩
      rw [hlast, List.getLast?_eq_some_getLast hts]
      exact .pure hs (.token (.last (hnone rfl) ended (List.getLast?_eq_some_getLast hts)))
  · intro f s' hs' hf
    exact .throw hs' hf

theorem advance_accounts (hts : ts ≠ []) (hs : s.Amid ts failure) :
    Accounts ts failure s advance fun t s' => s.pending = t :: s'.pending := by
  refine (peek_accounts hs 0).bind ?_
  rintro o s' - ⟨rfl, ho, -⟩
  cases o with
  | none => exact fail_accounts hts hs _
  | some t =>
    have hpending : s'.pending = t :: s'.pending.drop 1 := by
      cases hp : s'.pending with
      | nil => simp [hp] at ho
      | cons u rest =>
        rw [hp] at ho
        cases ho
        rfl
    exact ⟨⟨hs.along.take hpending, hs.failure⟩, hpending⟩

theorem sees_accounts (hs : s.Amid ts failure) (p : Pattern) :
    Accounts ts failure s (sees p) fun isSeen s' =>
      s' = s ∧ (isSeen = true → ∀ t rest, s.pending = t :: rest → p.accepts t = true) := by
  refine (peek_accounts hs 0).bind ?_
  rintro o s' - ⟨rfl, rfl, -⟩
  refine .pure hs ⟨rfl, ?_⟩
  intro hseen t rest hp
  rw [hp] at hseen
  exact hseen

/-- One of the tokens described was taken. -/
def TookOne (p : Pattern) (s : Stream) (t : Token) (s' : Stream) : Prop :=
  p.accepts t = true ∧ s.pending = t :: s'.pending

theorem skips_accounts (hts : ts ≠ []) (hs : s.Amid ts failure) (p : Pattern) :
    Accounts ts failure s (skips p) fun isTaken s' =>
      (isTaken = true → ∃ t, TookOne p s t s') ∧ (isTaken = false → s' = s) := by
  have accepts : Accounts ts failure s (accept p) fun o s' =>
      (∀ t, o = some t → TookOne p s t s') ∧ (o = none → s' = s) := by
    refine (sees_accounts hs p).bind ?_
    rintro isSeen s' - ⟨rfl, hseen⟩
    cases isSeen with
    | false => exact .pure hs ⟨nofun, fun _ => rfl⟩
    | true =>
      refine (advance_accounts hts hs).bind ?_
      intro t s'' hs'' hp
      exact .pure hs'' ⟨fun u hu => Option.some.inj hu ▸ ⟨hseen rfl t _ hp, hp⟩, nofun⟩
  refine accepts.bind ?_
  rintro o s' hs' ⟨htook, hnone⟩
  cases o with
  | none => exact .pure hs' ⟨nofun, fun _ => hnone rfl⟩
  | some t => exact .pure hs' ⟨fun _ => ⟨t, htook t rfl⟩, nofun⟩

theorem expectAs_accounts (hts : ts ≠ []) (hs : s.Amid ts failure) (p : Pattern) (wanted : Wanted) :
    Accounts ts failure s (expectAs p wanted) (TookOne p s) := by
  refine (sees_accounts hs p).bind ?_
  rintro isSeen s' - ⟨rfl, hseen⟩
  cases isSeen with
  | true => exact (advance_accounts hts hs).mono fun t s'' hp => ⟨hseen rfl t _ hp, hp⟩
  | false =>
    refine (peek_accounts hs 0).bind ?_
    intro o s'' hs'' _
    exact fail_accounts hts hs'' _

end Reader

namespace Grammar

open Reader

variable {α : Type} {ts : List Token} {failure : Option Fault} {s s' : Stream}

/-! ## Lists of parameters -/

/-- The stream lies behind the opening parenthesis of a list of parameters and what is read of it,
which has the names of the parameters found. -/
structure Listing (ts : List Token) (failure : Option Fault) (found : List Param) (s : Stream) :
    Prop where
  amid : s.Amid ts failure
  tokens : ∃ before opening list, ts = before ++ opening :: (list ++ s.pending) ∧
    (punct "(").accepts opening = true ∧ (∀ u ∈ list, Token.Listable u) ∧
    ∀ p ∈ found, ∃ u ∈ list, u.kind = .name ∧ u.text = p.name

variable {found : List Param} {t : Token}

/-- One more token of the list was taken. -/
theorem Listing.take {found' : List Param} (h : Listing ts failure found s)
    (hs' : s'.Amid ts failure) (hp : s.pending = t :: s'.pending) (ht : t.Listable)
    (hfound : ∀ p ∈ found', p ∈ found ∨ t.kind = .name ∧ t.text = p.name) :
    Listing ts failure found' s' := by
  obtain ⟨before, opening, list, hts, hopens, hlisted, hnames⟩ := h.tokens
  refine ⟨hs', before, opening, list ++ [t], by simp [hts, hp], hopens, ?_, ?_⟩
  · intro u hu
    rcases List.mem_append.mp hu with hu | hu
    · exact hlisted u hu
    · rw [List.mem_singleton.mp hu]
      exact ht
  · intro p hp
    rcases hfound p hp with hold | hnew
    · obtain ⟨u, hu, hname⟩ := hnames p hold
      exact ⟨u, List.mem_append_left _ hu, hname⟩
    · exact ⟨t, by simp, hnew⟩

theorem kind_of_accepts {p : Token.Pattern} (h : p.accepts t = true) : t.kind = p.kind := by
  simp only [Token.Pattern.accepts, Bool.and_eq_true, beq_iff_eq] at h
  exact h.1

theorem separator_accounts (hts : ts ≠ []) (h : Listing ts failure found s) :
    Accounts ts failure s (separator (punct ")")) fun _ s' => Listing ts failure found s' := by
  refine (sees_accounts h.amid _).bind ?_
  rintro isSeen s' - ⟨rfl, -⟩
  cases isSeen with
  | true => exact .pure h.amid h
  | false =>
    refine (expectAs_accounts hts h.amid _ _).bind ?_
    intro comma s'' hs'' ⟨hcomma, hp⟩
    exact .pure hs'' (h.take hs'' hp (.inr (.inl hcomma)) fun _ => .inl)

/-- A repeated name is reported at its second place, which was taken last. -/
theorem param_accounts (hts : ts ≠ []) (h : Listing ts failure found s) :
    Accounts ts failure s (param found) fun p s' => Listing ts failure (p :: found) s' := by
  refine (skips_accounts hts h.amid _).bind ?_
  rintro isRest s₁ hs₁ ⟨hdots, hnone⟩
  have h₁ : Listing ts failure found s₁ := by
    cases isRest with
    | false => exact hnone rfl ▸ h
    | true =>
      obtain ⟨dots, haccepts, hp⟩ := hdots rfl
      exact h.take hs₁ hp (.inr (.inr haccepts)) fun _ => .inl
  refine (expectAs_accounts hts hs₁ _ _).bind ?_
  rintro t s₂ hs₂ ⟨haccepts, hp⟩
  have hname : t.kind = .name := kind_of_accepts haccepts
  have h₂ : Listing ts failure (⟨t.text, isRest⟩ :: found) s₂ := by
    refine h₁.take hs₂ hp (.inl hname) ?_
    intro p hp
    rcases List.mem_cons.mp hp with rfl | hp
    · exact .inr ⟨hname, rfl⟩
    · exact .inl hp
  have finish : Accounts ts failure s₂ (do separator (punct ")"); return (⟨t.text, isRest⟩ : Param))
      fun p s' => Listing ts failure (p :: found) s' :=
    (separator_accounts hts h₂).bind fun _ s' hs' h' => .pure hs' h'
  dsimp only
  split
  · next hrepeated =>
    obtain ⟨p, hfound, hsame⟩ := List.any_eq_true.mp hrepeated
    obtain ⟨before, opening, list, htokens, hopens, hlisted, hnames⟩ := h₁.tokens
    obtain ⟨u, hu, hkind, htext⟩ := hnames p hfound
    have again : ∃ u ∈ list, u.kind = .name ∧ u.text = t.text :=
      ⟨u, hu, hkind, htext.trans (beq_iff_eq.mp hsame)⟩
    refine Accounts.bind (P := fun _ _ => False) (.throw hs₂ (.token ?_)) fun _ _ _ h => h.elim
    exact .repeated (hp ▸ htokens) hopens hlisted hname again
  · split
    · refine (sees_accounts hs₂ _).bind ?_
      rintro isSeen s' - ⟨rfl, -⟩
      cases isSeen with
      | true => exact finish
      | false =>
        exact Accounts.bind (P := fun _ _ => False) (fail_accounts hts hs₂ _) fun _ _ _ h => h.elim
    · exact finish

/-- Every name that is found stands in the list between the opening parenthesis and the stream. -/
theorem paramItems_accounts (hts : ts ≠ []) : ∀ (bound : List Token) (found : List Param)
    (s : Stream), Listing ts failure found s →
    Accounts ts failure s (itemsUntil (punct ")") param bound found) fun _ _ => True
  | bound, found, s, h => by
    unfold itemsUntil
    refine (skips_accounts hts h.amid _).bind ?_
    rintro isClosed s' hs' ⟨-, hopen⟩
    cases isClosed with
    | true => exact .pure hs' trivial
    | false =>
      obtain rfl := hopen rfl
      refine (param_accounts hts h).bind ?_
      intro p s₁ hs₁ h₁
      cases bound with
      | nil => exact .throw hs₁ (.other (by decide))
      | cons _ bound => exact paramItems_accounts hts bound (p :: found) s₁ h₁

theorem params_accounts (hts : ts ≠ []) (hs : s.Amid ts failure) :
    Accounts ts failure s params fun _ _ => True := by
  refine (expectAs_accounts hts hs _ _).bind ?_
  rintro opening s₁ hs₁ ⟨hopens, hp⟩
  have h₁ : Listing ts failure [] s₁ := by
    obtain ⟨taken, htaken, -⟩ := hs.along
    exact ⟨hs₁, taken, opening, [], by rw [htaken, hp]; rfl, hopens, by simp, by simp⟩
  exact Accounts.bind (P := fun _ s => s = s₁) ⟨hs₁, rfl⟩ fun bound s' _ hs' =>
    hs' ▸ paramItems_accounts hts bound [] s₁ h₁

/-! ## All constructs -/

/-- Every reader that is put together from the actions reports its problems as they do. -/
theorem Composed.accounts (hts : ts ≠ []) {r : Reader α} (h : Composed r) :
    ∀ s, s.Amid ts failure → Accounts ts failure s r fun _ _ => True := by
  induction h with
  | pure a => exact fun s hs => .pure hs trivial
  | bind _ _ ih ihn => exact fun s hs => (ih s hs).bind fun a s' hs' _ => ihn a s' hs'
  | peek k => exact fun s hs => (peek_accounts hs k).mono fun _ _ _ => trivial
  | pending => exact fun s hs => ⟨hs, trivial⟩
  | advance => exact fun s hs => (advance_accounts hts hs).mono fun _ _ _ => trivial
  | fail problem => exact fun s hs => fail_accounts hts hs problem
  | throw hf => exact fun s hs => .throw hs (.other hf)
  | params => exact fun s hs => params_accounts hts hs

/-- Declaration after declaration is read, up to the end of the text or to a fault. -/
theorem rootsFrom_accounts (depth : Nat) {nodes : List Node} {fault : Fault} {final : Stream} :
    ∀ (bound : List Token) (found : List Node) (s : Stream), s.Amid ts failure →
      rootsFrom depth bound found s = (nodes, some fault, final) →
      final.Along ts ∧ final.Blames ts failure fault
  | bound, found, s, hs, h => by
    unfold rootsFrom at h
    cases hended : finished s with
    | error f after =>
      rw [hended] at h
      cases h
      exact (finished_accounts hs).of_error hended
    | ok ended after =>
      rw [hended] at h
      obtain ⟨hafter, hts⟩ := (finished_accounts hs).of_ok hended
      cases ended with
      | true => cases h
      | false =>
        have hroot := (root_composed depth).accounts (hts rfl) after hafter
        cases hread : root depth after with
        | error f after' =>
          simp only [hread] at h
          cases h
          exact hroot.of_error hread
        | ok node after' =>
          simp only [hread] at h
          have hafter' := (hroot.of_ok hread).1
          cases bound with
          | nil =>
            cases h
            exact ⟨hafter'.along, .other (by decide)⟩
          | cons _ bound => exact rootsFrom_accounts depth bound (node :: found) after' hafter' h

/-! ## Whole texts -/

theorem amid_ofSource (source : String) :
    (Stream.ofSource source).Amid (Token.scan source).1 (Token.scan source).2 :=
  ⟨⟨[], rfl, rfl⟩, rfl⟩

/-- Whatever text is read, a problem in it is reported at a place in it: where a token begins, which
is the next one, or the last one if the text has ended, or a parameter with the name of an earlier
one; or else where the first lexeme begins that cannot be read. -/
theorem problem_is_reported_in_place {depth : Nat} {source : String} {nodes : List Node}
    {fault : Fault} {rest : Stream}
    (h : roots depth (.ofSource source) = (nodes, some fault, rest))
    (hf : fault.kind = .reading) :
    ∃ problem place, fault = .misread problem place ∧ 1 ≤ place.line ∧ 1 ≤ place.column ∧
      rest.Along (Token.scan source).1 ∧
      ∃ before text, source.toList = before ++ text ∧ place = .behind before ∧
        ((∃ t own after, t.position = place ∧ text = own ++ after ∧ own ≠ [] ∧
            Token.Spelled t.kind t.text own ∧
            rest.Accuses (Token.scan source).1 (Token.scan source).2 problem t) ∨
          (Token.scan source).2 = some fault ∧ Token.Unreadable problem text) := by
  have hcut : Token.Cut [] source.toList (Token.scan source).1 (Token.scan source).2 :=
    Token.scanFrom_cut [] source.toList
  obtain ⟨along, hblames⟩ := rootsFrom_accounts depth _ [] _ (amid_ofSource source) h
  have counted : ∀ before : List Char,
      1 ≤ (Position.behind before).line ∧ 1 ≤ (Position.behind before).column :=
    fun before => ⟨Nat.le_add_right 1 _, Nat.le_add_right 1 _⟩
  cases hblames with
  | token haccuses =>
    obtain ⟨earlier, own, later, htext, hown, hspelled, hplace⟩ :=
      hcut.spelled_of_mem (haccuses.mem along)
    rw [List.nil_append] at hplace
    refine ⟨_, _, rfl, hplace ▸ (counted earlier).1, hplace ▸ (counted earlier).2, along, earlier,
      own ++ later, htext, hplace, .inl ⟨_, own, later, rfl, rfl, hown, hspelled, haccuses⟩⟩
  | scanner hscan =>
    obtain ⟨problem, place, rfl⟩ := Fault.eq_misread_of_kind hf
    obtain ⟨earlier, later, htext, hbad, hplace⟩ := hcut.unreadable_of_fault hscan
    rw [List.nil_append] at hplace
    subst hplace
    exact ⟨problem, _, rfl, (counted earlier).1, (counted earlier).2, along, earlier, later, htext,
      rfl, .inr ⟨hscan, hbad⟩⟩
  | other hkind => exact absurd hf hkind

/-- The second parameter stands on the second line and has the name of the first one. -/
theorem repeated_parameter_is_reported_in_place :
    let source := "fn f(x,\n  x) = 1"
    ∃ nodes rest, roots 9 (.ofSource source) =
        (nodes, some (.misread (.duplicateParameter "x") ⟨2, 3⟩), rest) ∧
      (Fault.misread (.duplicateParameter "x") ⟨2, 3⟩).kind = .reading ∧
      ∃ t, t.position = ⟨2, 3⟩ ∧
        rest.Accuses (Token.scan source).1 none (.duplicateParameter "x") t := by
  intro source
  have hfault : (roots 9 (.ofSource source)).2.1 =
      some (.misread (.duplicateParameter "x") ⟨2, 3⟩) := by
    dsimp only [source]
    cbv
  have hscan : (Token.scan source).2 = none := by
    dsimp only [source]
    cbv
  have hroots : roots 9 (.ofSource source) = ((roots 9 (.ofSource source)).1,
      some (.misread (.duplicateParameter "x") ⟨2, 3⟩), (roots 9 (.ofSource source)).2.2) :=
    Prod.ext rfl (Prod.ext hfault rfl)
  refine ⟨_, _, hroots, rfl, ?_⟩
  obtain ⟨problem, place, ⟨⟩, -, -, -, before, text, -, -, hplaced⟩ :=
    problem_is_reported_in_place hroots rfl
  rw [hscan] at hplaced
  obtain ⟨t, _, _, hplace, -, -, -, haccuses⟩ | ⟨⟨⟩, -⟩ := hplaced
  exact ⟨t, hplace, haccuses⟩

end Grammar

end Scriptlet
