import Scriptlet.Proofs.Erasure
import Scriptlet.Token.Stream

/-!
# Readers do not look at places

What a reader takes from a stream of tokens depends on their kinds and texts. The places of the
tokens go into the lines of what is read and into the place of a problem, and nowhere else. So a
reader on a stream without places (`Stream.unplaced`) comes to the same, without places.

`Reader.Blind f r` : the reader is like that; `f` drops the places, or lines, of its result.
-/

namespace Scriptlet

/-- The token as if it stood nowhere. -/
def Token.unplaced (t : Token) : Token := { t with position := Position.nowhere }

@[simp] theorem Token.kind_unplaced (t : Token) : t.unplaced.kind = t.kind := rfl

@[simp] theorem Token.text_unplaced (t : Token) : t.unplaced.text = t.text := rfl

@[simp] theorem Token.line_unplaced (t : Token) : t.unplaced.position.line = 0 := rfl

/-- The fault without the place of a problem. -/
def Fault.unplaced : Fault → Fault
  | .misread problem _ => .misread problem Position.nowhere
  | f => f

/-- The stream without places. -/
def Stream.unplaced (s : Stream) : Stream where
  pending := s.pending.map Token.unplaced
  failure := s.failure.map Fault.unplaced
  last := s.last.map Token.unplaced

/-- Places are erased. -/
def placeless : Erasure Fault Stream := ⟨Stream.unplaced, Fault.unplaced⟩

namespace Reader

open Token

variable {α β : Type}

/-- On a stream without places the reader comes to the same, without places. -/
abbrev Blind (f : α → α) (r : Reader α) : Prop := placeless.Mirrors f r r

/-! ## Single tokens -/

theorem peek_blind (k : Nat) : Blind (Option.map unplaced) (peek k) := by
  constructor
  intro s
  show peek k s.unplaced = _
  unfold peek
  have hk : s.unplaced.pending[k]? = s.pending[k]?.map unplaced := List.getElem?_map
  have hf : s.unplaced.failure = s.failure.map Fault.unplaced := rfl
  rw [hk, hf]
  cases s.pending[k]? with
  | some t => rfl
  | none => cases s.failure <;> rfl

theorem finished_blind : Blind id finished := by
  refine (peek_blind 0).bind fun t => ?_
  rw [Option.isNone_map]
  exact .pure _

theorem diagnose_blind (problem : Problem) : Blind Fault.unplaced (diagnose problem) := by
  refine (peek_blind 0).bind fun t => ?_
  cases t with
  | some t => exact .pure _
  | none =>
    refine Erasure.Mirrors.get.bind fun s => ?_
    have hlast : (placeless.state s).last = s.last.map unplaced := rfl
    rw [hlast]
    cases s.last with
    | some t => exact .pure _
    | none => exact .pure _

/-- A failure has no result, so nothing is dropped from it. -/
theorem fail_blind {f : α → β} (problem : Problem) :
    placeless.Mirrors f (fail problem : Reader α) (fail problem : Reader β) :=
  (diagnose_blind problem).bind fun x => .throw x

theorem advance_blind : Blind unplaced advance := by
  refine (peek_blind 0).bind fun t => ?_
  cases t with
  | none => exact fail_blind _
  | some t =>
    refine .next (.modified fun s => ?_) fun _ => .pure t
    show (⟨_, _, _⟩ : Stream) = ⟨_, _, _⟩
    simp [placeless, Stream.unplaced]

theorem check_blind (p : Pattern) (k : Nat) : Blind id (check p k) := by
  refine (peek_blind k).bind fun t => ?_
  have hany : (t.map unplaced).any p.accepts = t.any p.accepts := by cases t <;> rfl
  rw [hany]
  exact .pure _

theorem sees_blind (p : Pattern) : Blind id (sees p) := check_blind p 0

theorem accept_blind (p : Pattern) : Blind (Option.map unplaced) (accept p) :=
  (sees_blind p).next fun _ => .ite (advance_blind.bind fun t => .pure (some t)) (.pure none)

theorem skips_blind (p : Pattern) : Blind id (skips p) := by
  refine (accept_blind p).bind fun t => ?_
  rw [Option.isSome_map]
  exact .pure _

theorem expectAs_blind (p : Pattern) (wanted : Wanted) : Blind unplaced (expectAs p wanted) := by
  refine (sees_blind p).next fun _ => .ite advance_blind ((peek_blind 0).bind fun t => ?_)
  have htext : (t.map unplaced).map (·.text) = t.map (·.text) := by cases t <;> rfl
  rw [htext]
  exact fail_blind _

theorem expect_blind (p : Pattern) : Blind unplaced (expect p) := expectAs_blind p p.wanted

theorem pending_blind : Blind (List.map unplaced) pending := ⟨fun _ => rfl⟩

/-! ## Lists -/

theorem itemsUntil_blind {close : Pattern} {item : List α → Reader α} {f : α → α}
    (h : ∀ found, placeless.Mirrors f (item found) (item (found.map f))) :
    ∀ (bound : List Token) (found : List α), placeless.Mirrors (List.map f)
      (itemsUntil close item bound found) (itemsUntil close item (bound.map unplaced) (found.map f))
  | bound, found => by
    unfold itemsUntil
    refine (skips_blind close).next fun _ => .ite ?_ ((h found).bind fun a => ?_)
    · rw [← List.map_reverse]
      exact .pure _
    · cases bound with
      | nil => exact .throw Fault.overflow
      | cons t bound => exact itemsUntil_blind h bound (a :: found)

theorem listUntil_blind {close : Pattern} {item : List α → Reader α} {f : α → α}
    (h : ∀ found, placeless.Mirrors f (item found) (item (found.map f))) :
    Blind (List.map f) (listUntil close item) :=
  pending_blind.bind fun bound => itemsUntil_blind h bound []

theorem separator_blind (close : Pattern) : Blind id (separator close) :=
  (sees_blind close).next fun _ => .ite (.pure _) ((expect_blind _).bind fun _ => .pure _)

theorem commaList_blind {close : Pattern} {item : Reader α} {f : α → α} (h : Blind f item) :
    Blind (List.map f) (commaList close item) :=
  listUntil_blind fun _ => h.bind fun a => (separator_blind close).next fun _ => .pure a

/-! ## Conditions -/

theorem or_blind {a b : Reader Bool} (ha : Blind id a) (hb : Blind id b) : Blind id (a <||> b) := by
  refine ha.next fun x => ?_
  cases x with
  | true => exact .pure true
  | false => exact hb

theorem and_blind {a b : Reader Bool} (ha : Blind id a) (hb : Blind id b) :
    Blind id (a <&&> b) := by
  refine ha.next fun x => ?_
  cases x with
  | true => exact hb
  | false => exact .pure false

end Reader

/-- Texts whose tokens differ in their places only give the same stream without places. -/
theorem Stream.unplaced_ofSource_eq {source source' : String}
    (h : (Token.scan source).1.map (fun t => (t.kind, t.text)) =
      (Token.scan source').1.map fun t => (t.kind, t.text))
    (hf : (Token.scan source).2 = none) (hf' : (Token.scan source').2 = none) :
    (ofSource source).unplaced = (ofSource source').unplaced := by
  have hstream : ∀ source, (Token.scan source).2 = none → (ofSource source).unplaced =
      ⟨((Token.scan source).1.map fun t => (t.kind, t.text)).map fun piece =>
        ⟨piece.1, piece.2, Position.nowhere⟩, none, none⟩ := by
    intro source hf
    rw [List.map_map]
    show (⟨_, Option.map _ (Token.scan source).2, _⟩ : Stream) = _
    rw [hf]
    rfl
  rw [hstream source hf, hstream source' hf', h]

end Scriptlet
