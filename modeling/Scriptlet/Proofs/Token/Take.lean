import Scriptlet.Proofs.Action
import Scriptlet.Proofs.Token.Spell
import Scriptlet.Token.Stream

/-!
# Readers that take given pieces

`Reader.Takes r ps follow Q` : from any stream that begins with the pieces `ps`, whatever their
places, and goes on as `follow` says, the reader takes exactly these pieces and gives a result with
`Q`. `Reader.Looks r f` : the reader takes nothing, and what it says depends on the pieces to come.

The rules follow the readers of `Token.Stream`. In a sequence each reader has to be content with
what the next one takes; the rules ask for that as a condition on lists of pieces.
-/

namespace Scriptlet

/-- Is the piece among those described? -/
def Token.Pattern.admits (p : Token.Pattern) (q : Piece) : Bool :=
  q.kind == p.kind && p.text.all (· == q.text)

/-- A text can only be given to a pattern by a piece of that text, so whatever is true of a piece
and false of that text tells them apart. -/
theorem Token.Pattern.admits_eq_false {f : Piece → Bool} {q : Piece} {kind : Token.Kind}
    {text : String} (hq : f q = true) (h : f ⟨kind, text⟩ = false) :
    Token.Pattern.admits ⟨kind, some text⟩ q = false := by
  obtain ⟨k, t⟩ := q
  by_cases he : k = kind ∧ text = t
  · obtain ⟨rfl, rfl⟩ := he
    rw [hq] at h
    cases h
  · simpa [Token.Pattern.admits] using he

namespace Reader

open Token

variable {α β : Type} {r : Reader α} {next : α → Reader β} {ps qs : List Piece}
  {follow after : List Piece → Prop} {P : α → Prop} {Q : β → Prop}

/-- From every stream that begins with the pieces and goes on as it should, the reader takes them
and gives a result as described. -/
def Takes (r : Reader α) (ps : List Piece) (follow : List Piece → Prop) (P : α → Prop) : Prop :=
  ∀ ts rest last, ts.map piece = ps → follow (rest.map piece) →
    ∃ a last', r ⟨ts ++ rest, none, last⟩ = .ok a ⟨rest, none, last'⟩ ∧ P a

/-- The reader takes nothing; what it gives depends on the pieces to come. -/
def Looks (r : Reader α) (f : List Piece → α) : Prop :=
  ∀ ts last, r ⟨ts, none, last⟩ = .ok (f (ts.map piece)) ⟨ts, none, last⟩

/-- Anything may follow. -/
abbrev anything : List Piece → Prop := fun _ => True

theorem text_of_piece {t : Token} {kind : Kind} {text : String} (h : t.piece = ⟨kind, text⟩) :
    t.text = text :=
  congrArg Piece.text h

namespace Takes

theorem pure {a : α} (h : P a) : Takes (Pure.pure a) [] follow P := by
  intro ts rest last hts _
  rw [List.map_eq_nil_iff.mp hts]
  exact ⟨a, last, rfl, h⟩

/-- One reader after the other. -/
theorem bind (h : Takes r ps follow P) (hn : ∀ a, P a → Takes (next a) qs after Q)
    (hf : ∀ rs, after rs → follow (qs ++ rs)) : Takes (r >>= next) (ps ++ qs) after Q := by
  intro ts rest last hts hafter
  obtain ⟨ts₁, ts₂, rfl, h₁, h₂⟩ := List.map_eq_append_iff.mp hts
  have hfollow : follow ((ts₂ ++ rest).map piece) := by
    rw [List.map_append, h₂]
    exact hf _ hafter
  obtain ⟨a, last₁, hr, ha⟩ := h ts₁ (ts₂ ++ rest) last h₁ hfollow
  obtain ⟨b, last₂, hb, hQ⟩ := hn a ha ts₂ rest last₁ h₂ hafter
  refine ⟨b, last₂, ?_, hQ⟩
  rw [List.append_assoc, bind_ok hr, hb]

/-- A reader that takes one piece, and another one. -/
theorem cons {p : Piece} (h : Takes r [p] anything P)
    (hn : ∀ a, P a → Takes (next a) qs after Q) : Takes (r >>= next) (p :: qs) after Q :=
  bind h hn fun _ _ => trivial

/-- A reader that has nothing to take, and another one. -/
theorem pass (h : Takes r [] follow P) (hn : ∀ a, P a → Takes (next a) qs after Q)
    (hf : ∀ rs, after rs → follow (qs ++ rs)) : Takes (r >>= next) qs after Q :=
  bind h hn hf

/-- A reader that looks ahead, and another one. -/
theorem look {f : List Piece → α} (h : Looks r f) {a : α} (hn : Takes (next a) qs after Q)
    (ha : ∀ rs, after rs → f (qs ++ rs) = a) : Takes (r >>= next) qs after Q := by
  intro ts rest last hts hafter
  obtain ⟨b, last', hb, hQ⟩ := hn ts rest last hts hafter
  refine ⟨b, last', ?_, hQ⟩
  rw [bind_ok (h (ts ++ rest) last), List.map_append, hts, ha _ hafter, hb]

theorem mono {Q : α → Prop} (h : Takes r ps follow P) (hf : ∀ rs, after rs → follow rs)
    (hP : ∀ a, P a → Q a) : Takes r ps after Q := by
  intro ts rest last hts hafter
  obtain ⟨a, last', ha, hQ⟩ := h ts rest last hts (hf _ hafter)
  exact ⟨a, last', ha, hP a hQ⟩

/-- A reader that does not mind what follows. -/
theorem of_anything (h : Takes r ps anything P) : Takes r ps follow P :=
  h.mono (fun _ _ => trivial) fun _ hP => hP

/-- What comes last may be changed on the way out. -/
theorem map {f : α → β} (h : Takes r ps follow P) (hQ : ∀ a, P a → Q (f a)) :
    Takes (do return f (← r)) ps follow Q := by
  intro ts rest last hts hfollow
  obtain ⟨a, last', ha, hP⟩ := h ts rest last hts hfollow
  exact ⟨f a, last', bind_ok ha, hQ a hP⟩

/-- The tokens to come are at least as many as the pieces to take. -/
theorem pending_bind {next : List Token → Reader β}
    (h : ∀ bound : List Token, ps.length ≤ bound.length → Takes (next bound) ps after Q) :
    Takes (pending >>= next) ps after Q := by
  intro ts rest last hts hafter
  have hlength : ps.length ≤ (ts ++ rest).length := by
    rw [← hts, List.length_map, List.length_append]
    omega
  exact h (ts ++ rest) hlength ts rest last hts hafter

end Takes

/-! ## Looking ahead -/

theorem peek_looks (k : Nat) (ts : List Token) (last : Option Token) :
    peek k ⟨ts, none, last⟩ = .ok ts[k]? ⟨ts, none, last⟩ := by
  unfold peek
  cases ts[k]? <;> rfl

theorem check_looks (p : Pattern) (k : Nat) :
    Looks (check p k) fun rs => rs[k]?.any p.admits := by
  intro ts last
  rw [check, bind_ok (peek_looks k ts last)]
  show EStateM.Result.ok (ts[k]?.any p.accepts) _ = .ok ((ts.map piece)[k]?.any p.admits) _
  rw [List.getElem?_map]
  cases ts[k]? <;> rfl

theorem sees_looks (p : Pattern) : Looks (sees p) fun rs => rs[0]?.any p.admits :=
  check_looks p 0

theorem finished_looks : Looks finished fun rs => rs.isEmpty := by
  intro ts last
  rw [finished, bind_ok (peek_looks 0 ts last)]
  cases ts <;> rfl

theorem or_looks {a b : Reader Bool} {f g : List Piece → Bool} (ha : Looks a f) (hb : Looks b g) :
    Looks (a <||> b) fun rs => f rs || g rs := by
  intro ts last
  show (a >>= fun x => _) _ = .ok (f (ts.map piece) || g (ts.map piece)) _
  rw [bind_ok (ha ts last)]
  cases f (ts.map piece) with
  | true => rfl
  | false => exact hb ts last

theorem and_looks {a b : Reader Bool} {f g : List Piece → Bool} (ha : Looks a f) (hb : Looks b g) :
    Looks (a <&&> b) fun rs => f rs && g rs := by
  intro ts last
  show (a >>= fun x => _) _ = .ok (f (ts.map piece) && g (ts.map piece)) _
  rw [bind_ok (ha ts last)]
  cases f (ts.map piece) with
  | true => exact hb ts last
  | false => rfl

/-! ## Taking one piece -/

theorem advance_takes (p : Piece) : Takes advance [p] anything fun t => t.piece = p := by
  intro ts rest last hts _
  obtain ⟨t, rfl, ht⟩ := List.map_eq_singleton_iff.mp hts
  exact ⟨t, some t, rfl, ht⟩

theorem accept_takes {pattern : Pattern} {p : Piece} (h : pattern.admits p = true) :
    Takes (accept pattern) [p] anything fun o => o.map Token.piece = some p := by
  refine Takes.look (sees_looks pattern) (a := true) ?_ ?_
  · exact Takes.map (advance_takes p) fun t ht => congrArg some ht
  · intro rs _
    simpa using h

theorem accept_passes (pattern : Pattern) :
    Takes (accept pattern) [] (fun rs => rs[0]?.any pattern.admits = false) (· = none) :=
  Takes.look (sees_looks pattern) (a := false) (Takes.pure rfl) fun _ h => h

theorem skips_takes {pattern : Pattern} {p : Piece} (h : pattern.admits p = true) :
    Takes (skips pattern) [p] anything (· = true) := by
  refine Takes.map (accept_takes h) ?_
  intro o ho
  cases o with
  | none => cases ho
  | some t => rfl

theorem skips_passes (pattern : Pattern) :
    Takes (skips pattern) [] (fun rs => rs[0]?.any pattern.admits = false) (· = false) :=
  Takes.map (accept_passes pattern) fun o ho => by rw [ho]; rfl

theorem expectAs_takes {pattern : Pattern} {p : Piece} (h : pattern.admits p = true)
    (wanted : Wanted) : Takes (expectAs pattern wanted) [p] anything fun t => t.piece = p := by
  refine Takes.look (sees_looks pattern) (a := true) (advance_takes p) ?_
  intro rs _
  simpa using h

theorem expect_takes {pattern : Pattern} {p : Piece} (h : pattern.admits p = true) :
    Takes (expect pattern) [p] anything fun t => t.piece = p :=
  expectAs_takes h pattern.wanted

/-! ## Choosing by the next piece -/

namespace Takes

variable {pattern : Pattern} {q : Piece} {yes no : Reader β}

theorem seen (h : pattern.admits q = true) (hy : Takes yes (q :: qs) after Q) :
    Takes (do if ← sees pattern then yes else no) (q :: qs) after Q :=
  look (sees_looks pattern) (a := true) hy fun _ _ => h

theorem unseen (h : pattern.admits q = false) (hn : Takes no (q :: qs) after Q) :
    Takes (do if ← sees pattern then yes else no) (q :: qs) after Q :=
  look (sees_looks pattern) (a := false) hn fun _ _ => h

theorem skipped (h : pattern.admits q = true) (hy : Takes yes qs after Q) :
    Takes (do if ← skips pattern then yes else no) (q :: qs) after Q := by
  refine cons (skips_takes h) ?_
  rintro b rfl
  exact hy

theorem unskipped (h : pattern.admits q = false) (hn : Takes no (q :: qs) after Q) :
    Takes (do if ← skips pattern then yes else no) (q :: qs) after Q := by
  refine pass (skips_passes pattern) ?_ fun _ _ => h
  rintro b rfl
  exact hn

/-- Where the next token is looked at as a whole, only its place is unknown. -/
theorem peeked {next : Option Token → Reader β}
    (h : ∀ place, Takes (next (some ⟨q.kind, q.text, place⟩)) (q :: qs) after Q) :
    Takes (peek 0 >>= next) (q :: qs) after Q := by
  intro ts rest last hts hafter
  obtain ⟨t, ts', rfl, rfl, hts'⟩ := List.map_eq_cons_iff.mp hts
  obtain ⟨b, last', hb, hQ⟩ := h t.position (t :: ts') rest last hts hafter
  refine ⟨b, last', ?_, hQ⟩
  rw [List.cons_append, bind_ok (peek_looks 0 _ last)]
  exact hb

end Takes

/-! ## Lists -/

section Lists

open Piece

variable {ι γ : Type} {close : Pattern} {p : Piece} {item : List α → Reader α} {f : α → γ}
  {g : ι → γ} {own : ι → List ι → List Piece} {xs : List ι}

/-- Items that are all written as something are at most as many as the pieces. -/
theorem length_le_joined (tail : List Piece) (h : ∀ x ∈ xs, ∀ rest, own x rest ≠ []) :
    xs.length ≤ (joined own tail xs).length := by
  induction xs with
  | nil => exact Nat.zero_le _
  | cons x xs ih =>
    have hx := List.length_pos_iff.mpr (h x List.mem_cons_self xs)
    have hxs := ih fun y hy => h y (List.mem_cons_of_mem x hy)
    rw [List.length_cons, joined, List.length_append]
    omega

/-- The loop takes the items that are left. What it has found so far are those before them. -/
theorem itemsUntil_takes (hp : close.admits p = true)
    (heads : ∀ x ∈ xs, ∀ rest, ∃ q qs, own x rest = q :: qs ∧ close.admits q = false)
    (hitem : ∀ before x rest found, xs = before ++ x :: rest →
      found.reverse.map f = before.map g →
      Takes (item found) (own x rest) (fun rs => ∃ tail, rs = joined own [p] rest ++ tail)
        fun a => f a = g x) :
    ∀ (left before : List ι) (found : List α) (bound : List Token), xs = before ++ left →
      found.reverse.map f = before.map g → left.length ≤ bound.length →
      Takes (itemsUntil close item bound found) (joined own [p] left) anything
        fun as => as.map f = xs.map g
  | [], before, found, bound, hxs, hfound, _ => by
    unfold itemsUntil
    refine Takes.skipped hp (Takes.pure ?_)
    rw [hfound, hxs, List.append_nil]
  | x :: left, before, found, bound, hxs, hfound, hb => by
    unfold itemsUntil
    obtain ⟨q, qs, hq, hc⟩ := heads x (by simp [hxs]) left
    have hx := hitem before x left found hxs hfound
    -- its first piece does not close the list, so the loop goes on to the item
    rw [joined, hq, List.cons_append]
    refine Takes.unskipped hc ?_
    rw [← List.cons_append, ← hq]
    refine Takes.bind hx ?_ fun rs _ => ⟨rs, rfl⟩
    intro a ha
    cases bound with
    | nil => simp at hb
    | cons t bound =>
      refine itemsUntil_takes hp heads hitem left (before ++ [x]) (a :: found) bound ?_ ?_ ?_
      · rw [hxs, List.append_assoc, List.singleton_append]
      · rw [List.reverse_cons, List.map_append, List.map_append, hfound]
        simp [ha]
      · simpa using hb

/-- A list of items up to a closing piece. -/
theorem listUntil_takes (hp : close.admits p = true)
    (heads : ∀ x ∈ xs, ∀ rest, ∃ q qs, own x rest = q :: qs ∧ close.admits q = false)
    (hitem : ∀ before x rest found, xs = before ++ x :: rest →
      found.reverse.map f = before.map g →
      Takes (item found) (own x rest) (fun rs => ∃ tail, rs = joined own [p] rest ++ tail)
        fun a => f a = g x) :
    Takes (listUntil close item) (joined own [p] xs) anything fun as => as.map f = xs.map g := by
  refine Takes.pending_bind ?_
  intro bound hb
  refine itemsUntil_takes hp heads hitem xs [] [] bound rfl rfl ?_
  refine Nat.le_trans (length_le_joined [p] ?_) hb
  intro x hx rest hnil
  obtain ⟨q, qs, hq, _⟩ := heads x hx rest
  rw [hq] at hnil
  cases hnil

/-- Behind an item stands a comma, or the list ends. -/
theorem separator_takes (hp : close.admits p = true) (hcomma : close.admits (punct ",") = false)
    (rest : List ι) :
    Takes (separator close) (comma rest) (fun rs => ∃ tail, rs = joined own [p] rest ++ tail)
      fun _ => True := by
  unfold separator
  cases rest with
  | nil =>
    refine Takes.look (sees_looks close) (a := true) (Takes.pure trivial) ?_
    rintro rs ⟨tail, rfl⟩
    exact hp
  | cons x rest =>
    refine Takes.unseen hcomma ?_
    exact Takes.cons (expect_takes rfl) fun _ _ => Takes.pure trivial

/-- A list of items with commas between them. -/
theorem commaList_takes {item : Reader α} {spell : ι → List Piece} (hp : close.admits p = true)
    (hcomma : close.admits (punct ",") = false)
    (heads : ∀ x ∈ xs, ∃ q qs, spell x = q :: qs ∧ close.admits q = false)
    (hitem : ∀ x ∈ xs, Takes item (spell x) follow fun a => f a = g x)
    (between : ∀ rs, follow (punct "," :: rs)) (behind : ∀ rs, follow (p :: rs)) :
    Takes (commaList close item) (joined (fun x rest => spell x ++ comma rest) [p] xs) anything
      fun as => as.map f = xs.map g := by
  refine listUntil_takes hp ?_ ?_
  · intro x hx rest
    obtain ⟨q, qs, hq, hc⟩ := heads x hx
    exact ⟨q, qs ++ comma rest, by rw [hq, List.cons_append], hc⟩
  · intro before x rest found hxs _
    refine Takes.bind (hitem x (by simp [hxs])) ?_ ?_
    · intro a ha
      rw [← List.append_nil (comma rest)]
      refine Takes.bind (separator_takes hp hcomma rest) (fun _ _ => Takes.pure ha) fun _ h => h
    · rintro rs ⟨tail, rfl⟩
      cases rest with
      | nil => exact behind tail
      | cons y rest => exact between _

end Lists

end Reader

end Scriptlet
