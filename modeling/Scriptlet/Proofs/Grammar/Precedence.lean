import Scriptlet.Proofs.Grammar.Join
import Scriptlet.Proofs.Grammar.Roundtrip
import Scriptlet.Proofs.Token.Laid

/-!
# Operator chains

How operands and operators in a row are put together can be said without a parser: of the operators
that bind least tightly the last one is the root of the tree, and what stands before and behind it
are its branches (`splitTree`). The reader works its way through the chain from left to right, with
the least precedence that it may take, and comes to the same tree (`chain_reads_splitTree`).

The operands are texts. All that is asked of them is that the reader of operands takes each of them
as a whole, whatever operator follows (`IsOperand`). Literals, names and everything in parentheses
are like that, however they are laid out (`isOperand_of_laid`).

A stream is compared with a text by the kinds and texts of its tokens (`Stream.Shows`). The chain is
read link by link; `climb_shows` says what has been put together so far and why the next operator
can go on top of it.
-/

namespace Scriptlet

/-! ## Streams and texts -/

/-- The stream goes on with the tokens of a text that can be scanned to its end. -/
structure Stream.Shows (s : Stream) (text : String) : Prop where
  failure : s.failure = none
  scanned : (Token.scan text).2 = none
  pieces : s.pending.map Token.piece = (Token.scan text).1.map Token.piece

theorem Stream.shows_ofSource {text : String} (h : (Token.scan text).2 = none) :
    (Stream.ofSource text).Shows text := ⟨h, h, rfl⟩

theorem Token.unplaced_of_piece {ts us : List Token} (h : ts.map piece = us.map piece) :
    ts.map unplaced = us.map unplaced := by
  have hunplaced : ∀ ts : List Token, ts.map unplaced =
      (ts.map piece).map fun p => ⟨p.kind, p.text, Position.nowhere⟩ := by
    intro ts
    rw [List.map_map]
    rfl
  rw [hunplaced, hunplaced, h]

theorem Token.piece_of_unplaced {ts us : List Token} (h : ts.map unplaced = us.map unplaced) :
    ts.map piece = us.map piece := by
  have hpiece : ∀ ts : List Token, ts.map piece = (ts.map unplaced).map piece := by
    intro ts
    rw [List.map_map]
    rfl
  rw [hpiece ts, hpiece us, h]

/-- A text that scans to given pieces, and another one behind it. -/
theorem Token.scan_append_of_scans {text more : String} {ps : List Piece}
    {follow : List Char → Prop} (h : Scans text.toList ps follow) (hf : follow more.toList)
    (hmore : (scan more).2 = none) :
    (scan (text ++ more)).2 = none ∧
      (scan (text ++ more)).1.map piece = ps ++ (scan more).1.map piece := by
  obtain ⟨ts, cursor, hscan, hts⟩ := h more.toList hf Cursor.start []
  obtain ⟨hnone, hmoved⟩ := scanFrom_moved Cursor.start cursor more.toList hmore
  rw [scan, String.toList_append, hscan, scanFrom_found, List.append_nil, List.reverse_reverse]
  refine ⟨hnone, ?_⟩
  rw [List.map_append, hts, piece_of_unplaced hmoved]
  rfl

namespace Grammar

open Token.Pattern Reader Node

/-! ## The tree of a chain -/

/-- An operator and the operand behind it: how it is written, and its tree. -/
structure Link where
  operator : Operator
  text : String
  node : Node

namespace Link

/-- How tightly the operator binds. -/
abbrev precedence (l : Link) : Nat := l.operator.precedence

/-- Does the operator bind at least as tightly? -/
def binds (least : Nat) (l : Link) : Bool := decide (least ≤ l.precedence)

/-- The links as they are written behind an operand. -/
def tail : List Link → String
  | [] => ""
  | l :: links => " " ++ l.operator.sign ++ " " ++ (l.text ++ tail links)

/-- The last one of the links that bind least tightly, with those before and those behind it. -/
def loosest : List Link → Option (List Link × Link × List Link)
  | [] => none
  | l :: links =>
    match loosest links with
    | none => some ([], l, links)
    | some (before, found, after) =>
      if found.precedence ≤ l.precedence then some (l :: before, found, after)
      else some ([], l, links)

theorem eq_append_of_loosest {links before after : List Link} {l : Link}
    (h : loosest links = some (before, l, after)) : links = before ++ l :: after := by
  induction links generalizing before l after with
  | nil => cases h
  | cons first links ih =>
    rw [loosest] at h
    split at h
    · cases h
      rfl
    · next hrest =>
      split at h
      · cases h
        rw [ih hrest, List.cons_append]
      · cases h
        rfl

/-- What the loosest link is, without looking for it. -/
theorem loosest_append {before after : List Link} {l : Link}
    (hbefore : ∀ x ∈ before, l.precedence ≤ x.precedence)
    (hafter : ∀ x ∈ after, l.precedence < x.precedence) :
    loosest (before ++ l :: after) = some (before, l, after) := by
  induction before with
  | nil =>
    rw [List.nil_append, loosest]
    cases hrest : loosest after with
    | none => rfl
    | some found =>
      obtain ⟨before, x, later⟩ := found
      have hx : x ∈ after := by
        rw [eq_append_of_loosest hrest]
        simp
      have hlt := hafter x hx
      simp only
      rw [if_neg (by omega)]
  | cons first before ih =>
    have hrest := ih fun x hx => hbefore x (List.mem_cons_of_mem _ hx)
    rw [List.cons_append, loosest, hrest]
    simp only
    rw [if_pos (hbefore first List.mem_cons_self)]

end Link

/-- The tree of an operand and the links behind it: the last one of the operators that bind least
tightly is at the root. Lines are left out. -/
def splitTree (first : Node) (links : List Link) : Node :=
  match _h : Link.loosest links with
  | none => first
  | some (before, l, after) =>
    .binary 0 l.operator (splitTree first before) (splitTree l.node after)
termination_by links.length
decreasing_by
  all_goals
    rw [Link.eq_append_of_loosest _h, List.length_append, List.length_cons]
    omega

theorem splitTree_nil (first : Node) : splitTree first [] = first := by
  rw [splitTree]
  rfl

theorem splitTree_of_loosest {first : Node} {links before after : List Link} {l : Link}
    (h : Link.loosest links = some (before, l, after)) :
    splitTree first links =
      .binary 0 l.operator (splitTree first before) (splitTree l.node after) := by
  rw [splitTree]
  split
  · next hnone =>
    rw [h] at hnone
    cases hnone
  · next hsome =>
    rw [h] at hsome
    cases hsome
    rfl

theorem splitTree_append {first : Node} {before after : List Link} {l : Link}
    (hbefore : ∀ x ∈ before, l.precedence ≤ x.precedence)
    (hafter : ∀ x ∈ after, l.precedence < x.precedence) :
    splitTree first (before ++ l :: after) =
      .binary 0 l.operator (splitTree first before) (splitTree l.node after) :=
  splitTree_of_loosest (Link.loosest_append hbefore hafter)

/-! ## Operands -/

/-- An operator between blanks is one token. -/
theorem scan_operator {o : Operator} (known : o ∈ Operator.all) {more : String}
    (h : (Token.scan more).2 = none) :
    (Token.scan (" " ++ o.sign ++ " " ++ more)).2 = none ∧
      (Token.scan (" " ++ o.sign ++ " " ++ more)).1.map Token.piece =
        o.piece :: (Token.scan more).1.map Token.piece := by
  have hwritten : o.piece.write = o.sign.toList := by cases o <;> rfl
  have hscans : Token.Scans (" " ++ o.sign ++ " ").toList [o.piece] Token.anyText := by
    have hspaced := Token.Scans.blank.next (Token.Scans.spaced (proper_operator o known))
    rw [hwritten] at hspaced
    simpa using hspaced
  exact Token.scan_append_of_scans hscans trivial h

theorem scan_empty : Token.scan "" = ([], none) := Token.scanFrom_nil ..

/-- What can follow an operand of a chain: nothing, or an operator and any text that can be
scanned. -/
inductive Continues : String → Prop where
  | ended : Continues ""
  | operator {o : Operator} {more : String} (known : o ∈ Operator.all)
      (scanned : (Token.scan more).2 = none) : Continues (" " ++ o.sign ++ " " ++ more)

theorem Continues.scanned {rest : String} (h : Continues rest) : (Token.scan rest).2 = none := by
  cases h with
  | ended => rw [scan_empty]
  | operator known scanned => exact (scan_operator known scanned).1

/-- What follows an operand ends it, both as a text and as a row of pieces. -/
theorem Continues.ends {rest : String} (h : Continues rest) :
    Lexeme.Halts rest.toList ∧ Stops ((Token.scan rest).1.map Token.piece) := by
  cases h with
  | ended =>
    rw [scan_empty]
    exact ⟨nofun, rfl, rfl, rfl⟩
  | @operator o more known scanned =>
    rw [(scan_operator known scanned).2]
    refine ⟨?_, stops_operator o known⟩
    rw [String.toList_append, String.toList_append, String.toList_append]
    exact Lexeme.halts_cons (Or.inr (by decide)) _

/-- From a nesting depth on, the reader of operands takes the text as a whole, whatever operator
follows, and gives the tree. -/
def IsOperand (depth : Nat) (text : String) (node : Node) : Prop :=
  ∀ d, depth ≤ d → ∀ rest, Continues rest → ∃ n s,
    operand d (Stream.ofSource (text ++ rest)) = .ok n s ∧ Like node n ∧ s.Shows rest

variable {depth d : Nat} {text rest : String} {node : Node} {s : Stream}

theorem IsOperand.scanned (h : IsOperand depth text node) (hrest : Continues rest) :
    (Token.scan (text ++ rest)).2 = none := by
  obtain ⟨n, s', hread, -, hs⟩ := h depth (Nat.le_refl depth) rest hrest
  have htook := ((readersSteady (Nat.le_refl depth)).operand _).took n s' hread
  exact htook.failure.symm.trans hs.failure

/-- The tokens of what follows are left over. -/
theorem IsOperand.length_le (h : IsOperand depth text node) (hrest : Continues rest) :
    (Token.scan rest).1.length ≤ (Token.scan (text ++ rest)).1.length := by
  obtain ⟨n, s', hread, -, hs⟩ := h depth (Nat.le_refl depth) rest hrest
  have htook := ((readersSteady (Nat.le_refl depth)).operand _).took n s' hread
  have hlength : s'.pending.length = (Token.scan rest).1.length := by
    simpa using congrArg List.length hs.pieces
  have hle := htook.length_le
  have hsource : (Stream.ofSource (text ++ rest)).pending = (Token.scan (text ++ rest)).1 := rfl
  rw [hsource] at hle
  omega

/-- An operand is also taken from a stream that goes on with its tokens: what came before and where
the tokens stand makes no difference. -/
theorem IsOperand.reads (h : IsOperand depth text node) (hd : depth ≤ d) (hrest : Continues rest)
    (hs : s.Shows (text ++ rest)) :
    ∃ n s', operand d s = .ok n s' ∧ Like node n ∧ s'.Shows rest := by
  obtain ⟨n, s₁, hread, hn, hs₁⟩ := h d hd rest hrest
  -- the same tokens behind another one
  let t : Stream := ⟨(Token.scan (text ++ rest)).1, none, s.last⟩
  have hon : (Stream.ofSource (text ++ rest)).GoesOn [] t :=
    ⟨(List.append_nil _).symm, nofun, hs.scanned, rfl⟩
  obtain ⟨t₁, hreadt, hont⟩ := (readersFirm [] d).operand _ t hon n s₁ hread
  -- the same tokens at other places
  have hplaces : s.unplaced = t.unplaced := by
    rw [Stream.unplaced, Stream.unplaced, hs.failure, Token.unplaced_of_piece hs.pieces]
  have hsame := (readersBlind d).operand.eq_of_eq hplaces
  rw [hreadt] at hsame
  rcases Erasure.cases_of_outcome_eq hsame with
    ⟨n', s', _, _, hr, ht, hnode, hstate⟩ | ⟨_, _, _, _, _, ht, _⟩
  · cases ht
    have hpending : s'.pending.map Token.unplaced = t₁.pending.map Token.unplaced :=
      congrArg (·.pending) hstate
    have hfailure : s'.failure.map Fault.unplaced = t₁.failure.map Fault.unplaced :=
      congrArg (·.failure) hstate
    refine ⟨n', s', hr, hnode.trans hn, ?_, hs₁.scanned, ?_⟩
    · rw [hont.second] at hfailure
      exact Option.map_eq_none_iff.mp hfailure
    · rw [Token.piece_of_unplaced hpending, hont.pending, List.append_nil, hs₁.pieces]
  · cases ht

/-- A text of pieces that the readers of operands take is an operand. -/
theorem isOperand_of_takes {ps : List Piece} (hscans : Token.Scans text.toList ps Lexeme.Halts)
    (htakes : ∀ d, depth ≤ d → Takes (operand d) ps Stops (Like node)) :
    IsOperand depth text node := by
  intro d hd rest hrest
  obtain ⟨hhalts, hstops⟩ := hrest.ends
  obtain ⟨hscanned, hpieces⟩ := Token.scan_append_of_scans hscans hhalts hrest.scanned
  obtain ⟨ts, us, htokens, hts, hus⟩ := List.map_eq_append_iff.mp hpieces
  obtain ⟨n, last, hread, hn⟩ := htakes d hd ts us none hts (hus ▸ hstops)
  refine ⟨n, ⟨us, none, last⟩, ?_, hn, rfl, hrest.scanned, hus⟩
  have hsource : Stream.ofSource (text ++ rest) = ⟨ts ++ us, none, none⟩ := by
    rw [← htokens, ← hscanned]
    rfl
  rw [hsource]
  exact hread

/-- An expression that fits is an operand, however it is laid out. -/
theorem isOperand_of_laid (fits : Fits False .expression node) (h : Laid node.spell text.toList) :
    ∀ᶠ depth in Filter.atTop, IsOperand depth text node := by
  have htakes := eventually_operand (eventually_reads fits)
  obtain ⟨least, hleast⟩ := Filter.eventually_atTop.mp htakes
  filter_upwards [Filter.eventually_ge_atTop least] with depth hdepth
  exact isOperand_of_takes h.scans fun d hd => hleast d (Nat.le_trans hdepth hd)

/-! ## Links -/

namespace Link

/-- The operator is one of the language, and the operand can be read. -/
structure Sound (depth : Nat) (l : Link) : Prop where
  known : l.operator ∈ Operator.all
  operand : IsOperand depth l.text l.node

/-- Links can follow an operand, and there is a token for each of them. -/
theorem continues_tail : ∀ {links : List Link}, (∀ l ∈ links, l.Sound depth) →
    Continues (tail links) ∧ links.length ≤ (Token.scan (tail links)).1.length
  | [], _ => by
    exact ⟨.ended, Nat.zero_le _⟩
  | l :: links, h => by
    obtain ⟨hrest, hlength⟩ := continues_tail fun x hx => h x (List.mem_cons_of_mem _ hx)
    have hl := h l List.mem_cons_self
    have hscanned := hl.operand.scanned hrest
    refine ⟨.operator hl.known hscanned, ?_⟩
    have hcount := congrArg List.length (scan_operator hl.known hscanned).2
    rw [List.length_map, List.length_cons, List.length_map] at hcount
    have hle := hl.operand.length_le hrest
    rw [tail, List.length_cons, hcount]
    omega

variable {l : Link} {links : List Link}

/-- A stream that shows links begins with the first operator. -/
theorem shows_cons (hl : l.Sound depth) (hlinks : ∀ x ∈ links, x.Sound depth)
    (hs : s.Shows (tail (l :: links))) :
    ∃ t ts, s.pending = t :: ts ∧ t.piece = l.operator.piece ∧
      ∀ last, Stream.Shows ⟨ts, none, last⟩ (l.text ++ tail links) := by
  have hscanned := hl.operand.scanned (continues_tail hlinks).1
  have hpieces := hs.pieces
  rw [tail, (scan_operator hl.known hscanned).2] at hpieces
  obtain ⟨t, ts, hpending, ht, hts⟩ := List.map_eq_cons_iff.mp hpieces
  exact ⟨t, ts, hpending, ht, fun last => ⟨rfl, hscanned, hts⟩⟩

theorem nextOperator_cons (hl : l.Sound depth) (hlinks : ∀ x ∈ links, x.Sound depth)
    (hs : s.Shows (tail (l :: links))) : nextOperator s = .ok (some l.operator) s := by
  obtain ⟨t, ts, hpending, ht, -⟩ := shows_cons hl hlinks hs
  obtain ⟨pending, failure, last⟩ := s
  obtain rfl : failure = none := hs.failure
  obtain rfl : pending = t :: ts := hpending
  rw [nextOperator_looks, List.map_cons, ht, operatorAhead_piece _ hl.known]

theorem nextOperator_nil (hs : s.Shows (tail [])) : nextOperator s = .ok none s := by
  obtain ⟨pending, failure, last⟩ := s
  obtain rfl : failure = none := hs.failure
  have hpieces := hs.pieces
  rw [tail, scan_empty] at hpieces
  rw [nextOperator_looks, hpieces]
  rfl

theorem advance_cons (hl : l.Sound depth) (hlinks : ∀ x ∈ links, x.Sound depth)
    (hs : s.Shows (tail (l :: links))) :
    ∃ t s', advance s = .ok t s' ∧ s'.Shows (l.text ++ tail links) := by
  obtain ⟨t, ts, hpending, -, hrest⟩ := shows_cons hl hlinks hs
  obtain ⟨pending, failure, last⟩ := s
  obtain rfl : pending = t :: ts := hpending
  exact ⟨t, ⟨ts, failure, some t⟩, rfl, by rw [show failure = none from hs.failure]; exact hrest _⟩

end Link

/-! ## Reading a chain -/

/-- The links that a chain takes: those before the first one that binds less tightly. -/
def taken (least : Nat) (links : List Link) : List Link :=
  links.takeWhile (Link.binds least)

/-- The links that a chain leaves. -/
def left (least : Nat) (links : List Link) : List Link :=
  links.dropWhile (Link.binds least)

section

variable {least : Nat} {l : Link} {links : List Link}

theorem taken_append_left (least : Nat) (links : List Link) :
    taken least links ++ left least links = links := List.takeWhile_append_dropWhile

theorem le_of_mem_taken {x : Link} (h : x ∈ taken least links) : least ≤ x.precedence := by
  have hbinds : Link.binds least x = true := List.mem_takeWhile_imp h
  exact of_decide_eq_true hbinds

theorem lt_of_mem_head_left {x : Link} (h : x ∈ (left least links).head?) :
    x.precedence < least := by
  have hnot := List.head?_dropWhile_not (Link.binds least) links
  rw [left] at h
  rw [Option.mem_def.mp h] at hnot
  exact Nat.lt_of_not_le (of_decide_eq_false hnot)

/-- A chain ends before an operator that binds less tightly. -/
theorem taken_cons_of_lt (h : l.precedence < least) :
    taken least (l :: links) = [] ∧ left least (l :: links) = l :: links := by
  have hnot : ¬ Link.binds least l = true := by simpa [Link.binds] using h
  exact ⟨List.takeWhile_cons_of_neg hnot, List.dropWhile_cons_of_neg hnot⟩

/-- A chain that takes an operator takes all that its right side takes, and then goes on. -/
theorem taken_cons_of_le (h : least ≤ l.precedence) :
    taken least (l :: links) =
        l :: taken (l.precedence + 1) links ++ taken least (left (l.precedence + 1) links) ∧
      left least (l :: links) = left least (left (l.precedence + 1) links) := by
  have hfirst : Link.binds least l = true := decide_eq_true h
  have hall : ∀ x ∈ taken (l.precedence + 1) links, Link.binds least x = true := by
    intro x hx
    have hle := le_of_mem_taken hx
    exact decide_eq_true (by omega)
  have hlinks := taken_append_left (l.precedence + 1) links
  have htaken : taken least (l :: links) = l :: taken least links :=
    List.takeWhile_cons_of_pos hfirst
  have hleft : left least (l :: links) = left least links := List.dropWhile_cons_of_pos hfirst
  have hmore : ∀ others, taken least (taken (l.precedence + 1) links ++ others) =
      taken (l.precedence + 1) links ++ taken least others :=
    fun _ => List.takeWhile_append_of_pos hall
  have hless : ∀ others, left least (taken (l.precedence + 1) links ++ others) =
      left least others := fun _ => List.dropWhile_append_of_pos hall
  constructor
  · rw [htaken, List.cons_append, ← hmore, hlinks]
  · rw [hleft, ← hless (left (l.precedence + 1) links), hlinks]

end

/-- From a stream that shows the text and links behind it, the reader takes the text and those of
the links that bind at least as tightly as `least`, and gives their tree. -/
def ReadsChain (depth : Nat) (r : Reader Node) (least : Nat) (text : String) (node : Node) : Prop :=
  ∀ (links : List Link) (s : Stream), (∀ l ∈ links, l.Sound depth) →
    s.Shows (text ++ Link.tail links) →
    ∃ n s', r s = .ok n s' ∧ Like (splitTree node (taken least links)) n ∧
      s'.Shows (Link.tail (left least links))

/-- Goes on with a chain. `done` has been put together already, and every operator in it binds at
least as tightly as the next one, so the next one can go on top. -/
theorem climb_shows {chain : Nat → Reader Node} {least : Nat} {first : Node}
    (hchain : ∀ l : Link, l.Sound depth → least ≤ l.precedence →
      ReadsChain depth (chain (l.precedence + 1)) (l.precedence + 1) l.text l.node) :
    ∀ (bound : List Token) (done links : List Link) (tree : Node) (s : Stream),
      (∀ l ∈ links, l.Sound depth) → links.length ≤ bound.length →
      (∀ x ∈ done, ∀ l ∈ links.head?, l.precedence ≤ x.precedence) →
      Like (splitTree first done) tree → s.Shows (Link.tail links) →
      ∃ n s', climb chain least bound tree s = .ok n s' ∧
        Like (splitTree first (done ++ taken least links)) n ∧
        s'.Shows (Link.tail (left least links))
  | bound, done, [], tree, s, _, _, _, htree, hs => by
    refine ⟨tree, s, ?_, ?_, hs⟩
    · rw [climb, bind_ok (Link.nextOperator_nil hs)]
      rfl
    · rwa [taken, List.takeWhile_nil, List.append_nil]
  | [], _, l :: links, _, _, _, hbound, _, _, _ => absurd hbound (by simp)
  | _ :: bound, done, l :: links, tree, s, hsound, hbound, hdone, htree, hs => by
    have hl := hsound l List.mem_cons_self
    have hlinks : ∀ x ∈ links, x.Sound depth := fun x hx => hsound x (List.mem_cons_of_mem _ hx)
    rw [climb, bind_ok (Link.nextOperator_cons hl hlinks hs)]
    dsimp only
    by_cases hleast : l.operator.precedence < least
    · rw [if_pos hleast, (taken_cons_of_lt hleast).1, (taken_cons_of_lt hleast).2, List.append_nil]
      exact ⟨tree, s, rfl, htree, hs⟩
    · have hle : least ≤ l.precedence := Nat.le_of_not_lt hleast
      obtain ⟨t, s₁, hadvance, hs₁⟩ := Link.advance_cons hl hlinks hs
      obtain ⟨right, s₂, hright, hrtree, hs₂⟩ := hchain l hl hle links s₁ hlinks hs₁
      have hothers : ∀ x ∈ left (l.precedence + 1) links, x.Sound depth :=
        fun x hx => hlinks x ((List.dropWhile_sublist _).mem hx)
      have hlength : (left (l.precedence + 1) links).length ≤ bound.length :=
        Nat.le_trans (List.dropWhile_sublist _).length_le (Nat.le_of_succ_le_succ hbound)
      -- the operator is the loosest so far, and the next one is not tighter
      have hbefore : ∀ x ∈ done, l.precedence ≤ x.precedence := fun x hx => hdone x hx l rfl
      have hmore : ∀ x ∈ taken (l.precedence + 1) links, l.precedence < x.precedence :=
        fun x hx => le_of_mem_taken hx
      have hdone' : ∀ x ∈ done ++ l :: taken (l.precedence + 1) links,
          ∀ y ∈ (left (l.precedence + 1) links).head?, y.precedence ≤ x.precedence := by
        intro x hx y hy
        have hlt := lt_of_mem_head_left hy
        rcases List.mem_append.mp hx with hx | hx
        · have := hbefore x hx
          omega
        · rcases List.mem_cons.mp hx with rfl | hx
          · omega
          · have := hmore x hx
            omega
      have htree' : Like (splitTree first (done ++ l :: taken (l.precedence + 1) links))
          (.binary t.line l.operator tree right) := by
        rw [splitTree_append hbefore hmore]
        simp [Like, unlined, htree, hrtree]
      obtain ⟨n, s', hrun, hn, hs'⟩ :=
        climb_shows hchain bound _ _ _ s₂ hothers hlength hdone' htree' hs₂
      refine ⟨n, s', ?_, ?_, ?_⟩
      · rw [if_neg hleast, bind_ok hadvance, bind_ok hright]
        exact hrun
      · rwa [(taken_cons_of_le hle).1, ← List.append_assoc]
      · rwa [(taken_cons_of_le hle).2]

theorem precedence_bounds : ∀ o ∈ Operator.all, 1 ≤ o.precedence ∧ o.precedence ≤ 4 := by decide

/-- A chain reads its links. The right side of an operator is a chain of a higher precedence, one
level further down, so the operands are at most five levels below. -/
theorem chain_shows : ∀ {d least : Nat} {text : String} {node : Node},
    IsOperand depth text node → depth < d → depth + 5 ≤ d + (least - 1) →
      ReadsChain depth (chain d least) least text node
  | 0, _, _, _, _, hd, _ => absurd hd (Nat.not_lt_zero _)
  | d + 1, least, text, node, hoperand, hd, hleast => by
    intro links s hlinks hs
    obtain ⟨hcontinues, hlength⟩ := Link.continues_tail hlinks
    obtain ⟨first, s₁, hfirst, hnode, hs₁⟩ :=
      hoperand.reads (Nat.le_of_lt_succ hd) hcontinues hs
    have hright : ∀ l : Link, l.Sound depth → least ≤ l.precedence →
        ReadsChain depth (chain d (l.precedence + 1)) (l.precedence + 1) l.text l.node := by
      intro l hl hle
      have hbounds : 1 ≤ l.precedence ∧ l.precedence ≤ 4 := precedence_bounds l.operator hl.known
      exact chain_shows hl.operand (by omega) (by omega)
    have hbound : links.length ≤ s₁.pending.length := by
      have hpieces := congrArg List.length hs₁.pieces
      rw [List.length_map, List.length_map] at hpieces
      omega
    obtain ⟨n, s', hclimb, hn, hs'⟩ := climb_shows hright s₁.pending [] links first s₁ hlinks hbound
      nofun (by rwa [splitTree_nil node]) hs₁
    refine ⟨n, s', ?_, hn, hs'⟩
    show chainOf (chain d) (operand d) least s = _
    have hpending : pending s₁ = .ok s₁.pending s₁ := rfl
    rw [chainOf, bind_ok hfirst, bind_ok hpending, hclimb]

/-- Precedence climbing is splitting. Whatever the operands of a chain are and however many, if the
reader of operands takes each of them as a whole from a nesting depth on, then five levels above:

* a chain that takes every operator takes the whole text, and gives the tree with the last one of
  the operators that bind least tightly at the root and the trees of both sides below it;
* a chain of any least precedence takes the operands and operators before the first operator that
  binds less tightly, gives their tree, and leaves the rest of the text. -/
theorem chain_reads_splitTree (depth : Nat) (text : String) (node : Node) (links : List Link)
    (hfirst : IsOperand depth text node) (hlinks : ∀ l ∈ links, l.Sound depth) (d : Nat)
    (hd : depth + 5 ≤ d) :
    let source := Stream.ofSource (text ++ Link.tail links)
    (∃ n s, chain d 1 source = .ok n s ∧ n.unlined = (splitTree node links).unlined ∧
      s.pending = [] ∧ s.failure = none) ∧
    ∀ least, ∃ n s, chain d least source = .ok n s ∧
      n.unlined = (splitTree node (taken least links)).unlined ∧
      s.Shows (Link.tail (left least links)) := by
  intro source
  have hshows : source.Shows (text ++ Link.tail links) :=
    Stream.shows_ofSource (hfirst.scanned (Link.continues_tail hlinks).1)
  have hreads : ∀ least, ∃ n s, chain d least source = .ok n s ∧
      n.unlined = (splitTree node (taken least links)).unlined ∧
      s.Shows (Link.tail (left least links)) :=
    fun least => chain_shows hfirst (by omega) (by omega) links source hlinks hshows
  refine ⟨?_, hreads⟩
  -- every operator binds at least as tightly as the least precedence
  have hall : ∀ l ∈ links, Link.binds 1 l = true :=
    fun l hl => decide_eq_true (precedence_bounds l.operator (hlinks l hl).known).1
  have htaken : taken 1 links = links := List.takeWhile_eq_self_iff.mpr hall
  have hleft : left 1 links = [] := List.dropWhile_eq_nil_iff.mpr hall
  obtain ⟨n, s, hread, hn, hs⟩ := hreads 1
  rw [htaken] at hn
  rw [hleft] at hs
  refine ⟨n, s, hread, hn, ?_, hs.failure⟩
  have hpieces := hs.pieces
  rw [Link.tail, scan_empty] at hpieces
  exact List.map_eq_nil_iff.mp hpieces

/-- Four operators of three precedences, and one more inside an operand. A chain that may not take
the equality leaves it. -/
theorem chain_reads_mixed :
    let name := fun text => Node.identifier 0 text
    let source := Stream.ofSource "a - b * ( c + d ) - e == f"
    let product : Node := .binary 0 .mul (name "b") (.binary 0 .add (name "c") (name "d"))
    let difference : Node := .binary 0 .sub (.binary 0 .sub (name "a") product) (name "e")
    ∃ depth, IsOperand depth "( c + d )" (.binary 0 .add (name "c") (name "d")) ∧ ∀ d, depth ≤ d →
      (∃ n s, chain d 1 source = .ok n s ∧ n.unlined = .binary 0 .eq difference (name "f") ∧
        s.pending = [] ∧ s.failure = none) ∧
      ∃ n s, chain d 2 source = .ok n s ∧ n.unlined = difference ∧ s.Shows " == f" := by
  intro name source product difference
  have written : ∀ text, Token.isName text = true → Laid [.name text] text.toList :=
    fun text h => .last (.name h)
  have blank : Separator [' '] := ⟨.blank rfl .nil, by decide, Lexeme.halts_cons (by decide) _⟩
  have single : ∀ text, Token.isName text = true →
      ∀ᶠ depth in Filter.atTop, IsOperand depth text (name text) :=
    fun text h => isOperand_of_laid (.identifier h) (written text h)
  have enclosed : ∀ᶠ depth in Filter.atTop,
      IsOperand depth "( c + d )" (.binary 0 .add (name "c") (name "d")) := by
    refine isOperand_of_laid
      (.binary (by decide) (.identifier (by decide)) (.identifier (by decide))) ?_
    exact .cons (.punct (c := '(') (by decide)) blank (.cons (.name (by decide)) blank
      (.cons (.op (by decide)) blank (.cons (.name (by decide)) blank
        (.last (.punct (c := ')') (by decide))))))
  let links : List Link := [⟨.sub, "b", name "b"⟩,
    ⟨.mul, "( c + d )", .binary 0 .add (name "c") (name "d")⟩, ⟨.sub, "e", name "e"⟩,
    ⟨.eq, "f", name "f"⟩]
  have sound : ∀ᶠ depth in Filter.atTop, ∀ l ∈ links, l.Sound depth := by
    refine eventually_forall_mem ?_
    simp only [links, List.forall_mem_cons]
    refine ⟨?_, ?_, ?_, ?_, nofun⟩
    · exact (single "b" (by decide)).mono fun _ h => ⟨by decide, h⟩
    · exact enclosed.mono fun _ h => ⟨by decide, h⟩
    · exact (single "e" (by decide)).mono fun _ h => ⟨by decide, h⟩
    · exact (single "f" (by decide)).mono fun _ h => ⟨by decide, h⟩
  obtain ⟨depth, hfirst, hlinks, hinner⟩ :=
    ((single "a" (by decide)).and (sound.and enclosed)).exists
  refine ⟨depth + 5, fun d hd => hinner d (by omega), ?_⟩
  intro d hd
  obtain ⟨hwhole, hleast⟩ := chain_reads_splitTree depth "a" (name "a") links hfirst hlinks d hd
  obtain ⟨n, s, hread, hn, hs⟩ := hleast 2
  have hwholeTree : (splitTree (name "a") links).unlined = .binary 0 .eq difference (name "f") := by
    dsimp only [links, name, difference, product]
    cbv
  have hpartTree : (splitTree (name "a") (taken 2 links)).unlined = difference := by
    dsimp only [links, name, difference, product]
    cbv
  have hrest : Link.tail (left 2 links) = " == f" := by
    dsimp only [links]
    cbv
  rw [hwholeTree] at hwhole
  rw [hpartTree] at hn
  rw [hrest] at hs
  exact ⟨hwhole, n, s, hread, hn, hs⟩

end Grammar

end Scriptlet
