import Mathlib
import Scriptlet.Proofs.Grammar.Layout
import Scriptlet.Proofs.Machine.Layout
import Scriptlet.Session

/-!
# Layout does not matter

Two texts with the same tokens are one program, however they are laid out: they print the same, and
end well or fail alike. Only the place that a diagnostic of reading names may be another one.

Reading and evaluation alternate, so neither of the two halves (`Grammar.readersBlind`,
`Eval.evaluatorsBlind`) can be used on its own. `Alike act act'` says that two actions come to the
same on machines that differ in lines only; it is carried through the turns of `interleave`.
-/

namespace Scriptlet

/-! ## Faults without their places -/

/-- Two faults of one family that say the same, but for the place that a diagnostic of reading
names. -/
def Fault.SaysSame (f g : Fault) : Prop :=
  f.kind = g.kind ∧ ∃ words place place', f.message = words ++ place ∧ g.message = words ++ place' ∧
    (place = place' ∨
      f.kind = .reading ∧ ∃ p q : Position, place = p.suffix ∧ place' = q.suffix)

theorem Fault.eq_or_misread {f g : Fault} (h : f.unplaced = g.unplaced) :
    f = g ∨ ∃ problem p q, f = .misread problem p ∧ g = .misread problem q := by
  unfold Fault.unplaced at h
  split at h
  · next problem p =>
    split at h
    · next problem' q =>
      cases h
      exact Or.inr ⟨problem, p, q, rfl, rfl⟩
    · next hg => exact (hg _ _ h.symm).elim
  · next hf =>
    split at h
    · exact (hf _ _ h).elim
    · exact Or.inl h

theorem Fault.saysSame_of_unplaced_eq {f g : Fault} (h : f.unplaced = g.unplaced) :
    f.SaysSame g := by
  rcases Fault.eq_or_misread h with rfl | ⟨problem, p, q, rfl, rfl⟩
  · exact ⟨rfl, f.message, "", "", by simp, by simp, Or.inl rfl⟩
  · exact ⟨rfl, problem.message, p.suffix, q.suffix, rfl, rfl, Or.inr ⟨rfl, p, q, rfl, rfl⟩⟩

/-! ## Actions that come to the same -/

/-- The lines in the store and the places of problems are erased. -/
def layoutless : Erasure Fault Machine := ⟨Machine.unlined, Fault.unplaced⟩

/-- On machines that differ in lines only, the two actions come to the same. -/
structure Alike {α : Type} (act act' : Eval α) : Prop where
  outcome_eq : ∀ m m' : Machine, m.unlined = m'.unlined →
    layoutless.outcome id (act m) = layoutless.outcome id (act' m')

namespace Alike

variable {α β : Type}

/-- Two actions with one mirror image come to the same. -/
theorem of_mirrors {act act' image : Eval α} (h : lineless.Mirrors id act image)
    (h' : lineless.Mirrors id act' image) : Alike act act' := by
  constructor
  intro m m' hm
  have heq : lineless.outcome id (act m) = lineless.outcome id (act' m') := by
    rw [← h.outcome_eq m, ← h'.outcome_eq m']
    exact congrArg image hm
  rcases Erasure.cases_of_outcome_eq heq with
    ⟨a, n, a', n', hr, hr', ha, hn⟩ | ⟨f, n, g, n', hr, hr', hf, hn⟩
  · rw [hr, hr']
    show EStateM.Result.ok a n.unlined = .ok a' n'.unlined
    rw [show a = a' from ha, show n.unlined = n'.unlined from hn]
  · rw [hr, hr']
    show EStateM.Result.error f.unplaced n.unlined = .error g.unplaced n'.unlined
    rw [show f = g from hf, show n.unlined = n'.unlined from hn]

theorem throw {f g : Fault} (h : f.unplaced = g.unplaced) :
    Alike (MonadExcept.throw f : Eval α) (MonadExcept.throw g) := by
  constructor
  intro m m' hm
  show EStateM.Result.error f.unplaced m.unlined = .error g.unplaced m'.unlined
  rw [h, hm]

theorem pure (a : α) : Alike (Pure.pure a : Eval α) (Pure.pure a) := by
  have h : lineless.Mirrors id (Pure.pure a : Eval α) (Pure.pure a) := .pure a
  exact of_mirrors h h

theorem bind {act act' : Eval α} {next next' : α → Eval β} (h : Alike act act')
    (hn : ∀ a, Alike (next a) (next' a)) : Alike (act >>= next) (act' >>= next') := by
  constructor
  intro m m' hm
  show layoutless.outcome id (EStateM.bind act next m) =
    layoutless.outcome id (EStateM.bind act' next' m')
  unfold EStateM.bind
  rcases Erasure.cases_of_outcome_eq (h.outcome_eq m m' hm) with
    ⟨a, n, a', n', hr, hr', ha, hn'⟩ | ⟨f, n, g, n', hr, hr', hf, hn'⟩
  · obtain rfl : a = a' := ha
    rw [hr, hr']
    exact (hn a).outcome_eq n n' hn'
  · rw [hr, hr']
    show EStateM.Result.error f.unplaced n.unlined = .error g.unplaced n'.unlined
    rw [show f.unplaced = g.unplaced from hf, show n.unlined = n'.unlined from hn']

end Alike

namespace Session

open Eval

/-! ## Running -/

/-- Items that are read from streams that differ in places only, and acted on in turn. -/
theorem interleave_alike {item : Reader Node} {act : Node → Eval Unit}
    (hi : Reader.Blind Node.unlined item)
    (ha : ∀ node node' : Node, node.unlined = node'.unlined → Alike (act node) (act node')) :
    ∀ (bound bound' : List Token) (stream stream' : Stream), bound.length = bound'.length →
      stream.unplaced = stream'.unplaced →
      Alike (interleave item act bound stream) (interleave item act bound' stream')
  | bound, bound', stream, stream', hbound, hstream => by
    unfold interleave
    rcases Erasure.cases_of_outcome_eq (Reader.finished_blind.eq_of_eq hstream) with
      ⟨ended, rest, ended', rest', hr, hr', hended, hrest⟩ | ⟨f, rest, g, rest', hr, hr', hf, -⟩
    · obtain rfl : ended = ended' := hended
      rw [hr, hr']
      cases ended with
      | true => exact .pure ()
      | false =>
        dsimp only
        rcases Erasure.cases_of_outcome_eq (hi.eq_of_eq hrest) with
          ⟨node, after, node', after', hn, hn', hnode, hafter⟩ | ⟨f, _, g, _, hn, hn', hf, -⟩
        · rw [hn, hn']
          refine (ha node node' hnode).bind fun _ => ?_
          match bound, bound', hbound with
          | [], [], _ => exact .throw rfl
          | _ :: bound, _ :: bound', hbound =>
            exact interleave_alike hi ha bound bound' after after' (by simpa using hbound) hafter
        · rw [hn, hn']
          exact .throw hf
    · rw [hr, hr']
      exact .throw hf

/-- What a run does after it has read the text does not depend on lines. -/
theorem afterReading_blind (limit : Nat) (argv : List String) :
    Blind (do let (name, c) ← query entryPoint; bindArgs argv; enter limit name c) := by
  have hentry : ∀ s : Store, entryPoint s.unlined =
      (entryPoint s).map fun main => (main.1, main.2.unlined) := by
    intro s
    unfold entryPoint
    rw [Store.entries_unlined]
    split
    · rw [Store.function?_unlined]
      cases hf : s.function? _ with
      | none => rfl
      | some f =>
        obtain ⟨name, isExported, callable⟩ := f
        cases callable with
        | closure c =>
          show (if c.params.isEmpty then _ else _) =
            Except.map _ (if c.params.isEmpty then _ else _)
          split <;> rfl
        | native | hollow => rfl
    · rfl
  have hargs : Blind (bindArgs argv) :=
    .next (change_blind fun _ => rfl) fun _ => (newArray_blind _).next fun _ =>
      (newVariable_blind ..).next fun e => declare_blind e standardScope
  refine Erasure.Mirrors.bind (query_blind hentry) fun main => hargs.next fun _ => ?_
  cases limit with
  | zero => exact .throw Fault.overflow
  | succ depth =>
    refine (newScope_blind ..).next fun scope => ?_
    refine (instructions_blind (evaluatorsBlind depth).instruction scope main.2.body).next
      fun _ => ?_
    exact change_blind fun _ => rfl

/-- Registering a declaration does not depend on lines. -/
theorem register_alike (limit : Nat) {node node' : Node} (h : node.unlined = node'.unlined) :
    Alike
      (do let e ← register limit node
          note (.registered (← ask (·.entityName e)) mainModule.name))
      (do let e ← register limit node'
          note (.registered (← ask (·.entityName e)) mainModule.name)) := by
  have hregister : ∀ node : Node, lineless.Mirrors id
      (do let e ← register limit node
          note (.registered (← ask (·.entityName e)) mainModule.name))
      (do let e ← register limit node.unlined
          note (.registered (← ask (·.entityName e)) mainModule.name)) :=
    fun node => .next (((evaluatorsBlind limit).entity node mainScope).next fun e =>
      (declare_blind e mainScope).next fun _ => .pure e) fun e =>
        .next (ask_blind fun s => s.entityName_unlined e) fun _ => note_blind _
  have himage := hregister node'
  rw [← h] at himage
  exact .of_mirrors (hregister node) himage

theorem run_alike (limit : Nat) {source source' : String} (argv : List String)
    (h : (Stream.ofSource source).unplaced = (Stream.ofSource source').unplaced) :
    Alike (run limit source argv) (run limit source' argv) := by
  have hbound : (Stream.ofSource source).pending.length =
      (Stream.ofSource source').pending.length := by
    have hpending : (Stream.ofSource source).pending.map Token.unplaced =
        (Stream.ofSource source').pending.map Token.unplaced := congrArg (·.pending) h
    simpa using congrArg List.length hpending
  refine Alike.bind (interleave_alike (Grammar.root_blind limit)
    (fun _ _ => register_alike limit) _ _ _ _ hbound h) fun _ => ?_
  exact .of_mirrors (afterReading_blind limit argv) (afterReading_blind limit argv)

/-! ## What can be seen from outside -/

/-- Two outcomes of a run that cannot be told apart from outside: what was printed is the same, and
both succeeded or both failed with the same words. The machines differ in lines only. -/
inductive SameOutcome : EStateM.Result Fault Machine Unit → EStateM.Result Fault Machine Unit → Prop
  | success {m m' : Machine} (printed : m.output = m'.output) (same : m.unlined = m'.unlined) :
      SameOutcome (.ok () m) (.ok () m')
  | failure {f g : Fault} {m m' : Machine} (printed : m.output = m'.output)
      (same : m.unlined = m'.unlined) (words : f.SaysSame g) :
      SameOutcome (.error f m) (.error g m')

theorem output_eq_of_unlined_eq {m m' : Machine} (h : m.unlined = m'.unlined) :
    m.output = m'.output := by
  have houtput : m.unlined.output = m'.unlined.output := by rw [h]
  exact houtput

/-- Two texts that can be cut into tokens of the same kinds and texts, wherever these stand, give
runs that cannot be told apart, with any arguments and on any machine, such as that of a new
session. -/
theorem layout_does_not_matter (limit : Nat) (source source' : String) (argv : List String)
    (m : Machine) (h : (Token.scan source).2 = none) (h' : (Token.scan source').2 = none)
    (same : (Token.scan source).1.map (fun t => (t.kind, t.text)) =
      (Token.scan source').1.map fun t => (t.kind, t.text)) :
    SameOutcome (run limit source argv m) (run limit source' argv m) := by
  have halike := run_alike limit argv (Stream.unplaced_ofSource_eq same h h')
  rcases Erasure.cases_of_outcome_eq (halike.outcome_eq m m rfl) with
    ⟨_, n, _, n', hr, hr', -, hn⟩ | ⟨f, n, g, n', hr, hr', hf, hn⟩
  · rw [hr, hr']
    exact .success (output_eq_of_unlined_eq hn) hn
  · rw [hr, hr']
    exact .failure (output_eq_of_unlined_eq hn) hn (Fault.saysSame_of_unplaced_eq hf)

/-- A program with an error in its second declaration, on one line and on three. -/
theorem same_program_on_three_lines :
    (Token.scan "fn f() = 1 fn = 2").2 = none ∧
      (Token.scan "fn f()\n= 1 // one\nfn=2").2 = none ∧
      (Token.scan "fn f() = 1 fn = 2").1.map (fun t => (t.kind, t.text)) =
        (Token.scan "fn f()\n= 1 // one\nfn=2").1.map (fun t => (t.kind, t.text)) ∧
      SameOutcome (run 50 "fn f() = 1 fn = 2" [] (start false))
        (run 50 "fn f()\n= 1 // one\nfn=2" [] (start false)) := by
  have hscan : (Token.scan "fn f() = 1 fn = 2").2 = none := by cbv
  have hscan' : (Token.scan "fn f()\n= 1 // one\nfn=2").2 = none := by cbv
  have hsame : (Token.scan "fn f() = 1 fn = 2").1.map (fun t => (t.kind, t.text)) =
      (Token.scan "fn f()\n= 1 // one\nfn=2").1.map (fun t => (t.kind, t.text)) := by cbv
  exact ⟨hscan, hscan', hsame, layout_does_not_matter 50 _ _ [] (start false) hscan hscan' hsame⟩

end Session

end Scriptlet
