import Mathlib
import Scriptlet.Proofs.Session.Prototype

/-!
# Giving an object another prototype

An object gets a new prototype by the change of one link, and with it the chains of all objects that
fall back on it change at once. `setPrototype_splices` says which changes are refused and what
becomes of every chain:

* refused is what would close a circle, and nothing else; a refusal changes nothing;
* otherwise the chains that came to the object go on along the new prototype from there, and all
  others are as they were.

The chains are compared as walks (`Walk.splice`), so this does not rest on how `prototypeChain`
counts its links.
-/

namespace Scriptlet

/-! ## Walks along a changed link -/

namespace Walk

variable {α : Type} {next next' : α → Option α} {a b : α}

/-- A walk is over, or goes on from what its first member leads to. -/
theorem of_cons {l : List α} (h : Walk next a (b :: l)) :
    a = b ∧ (next a = none ∧ l = [] ∨ ∃ c, next a = some c ∧ Walk next c l) := by
  cases h with
  | stop hn => exact ⟨rfl, Or.inl ⟨hn, rfl⟩⟩
  | step hn walk => exact ⟨rfl, Or.inr ⟨_, hn, walk⟩⟩

/-- Where only the link of `b` is another one, a walk that comes to `b` goes on along it. -/
theorem splice (hsame : ∀ c, c ≠ b → next' c = next c) {above : List α}
    (hb : Walk next' b (b :: above)) {before after : List α}
    (h : Walk next a (before ++ b :: after)) : Walk next' a (before ++ b :: above) := by
  induction before generalizing a with
  | nil =>
    obtain ⟨rfl, -⟩ := h.of_cons
    exact hb
  | cons c before ih =>
    have hne : c ≠ b := by
      rintro rfl
      have hnodup := h.nodup
      simp at hnodup
    obtain ⟨rfl, ⟨-, hnil⟩ | ⟨d, hd, walk⟩⟩ := h.of_cons
    · simp at hnil
    · exact .step ((hsame a hne).trans hd) (ih walk)

end Walk

namespace Store

variable {s : Store} {id other : ObjectId} {prototype : Option ObjectId}

/-- The chain of a prototype, empty if there is none. -/
def chainAbove (s : Store) (prototype : Option ObjectId) : List ObjectId :=
  (prototype.map s.prototypeChain).getD []

/-- A prototype is refused exactly if its chain leads to the object. -/
theorem checkPrototype_eq_ok_iff :
    s.checkPrototype id prototype = .ok () ↔ id ∉ s.chainAbove prototype := by
  unfold checkPrototype chainAbove
  cases prototype with
  | none => simp
  | some p => by_cases h : id ∈ s.prototypeChain p <;> simp [h]

theorem checkPrototype_of_mem (h : id ∈ s.chainAbove prototype) :
    s.checkPrototype id prototype = .error .cyclicPrototype := by
  cases hcheck : s.checkPrototype id prototype with
  | ok _ => exact absurd h (checkPrototype_eq_ok_iff.mp hcheck)
  | error fault =>
    unfold checkPrototype at hcheck
    split at hcheck
    · exact hcheck.symm
    · cases hcheck

/-! ## Chains after the change -/

section

variable (hc : s.Closed) (ha : s.Acyclic)
include hc ha

/-- In a closed store without circles a chain is the whole walk. -/
theorem Acyclic.walk_prototypeChain (h : s.Has (.object id)) :
    Walk s.prototype? id (s.prototypeChain id) := by
  obtain ⟨l, hl⟩ := ha id
  rwa [hc.prototypeChain_eq hl h]

/-- The object itself falls back on the new prototype. -/
theorem walk_setPrototype_self (hid : s.Has (.object id))
    (held : ∀ p ∈ prototype, s.Has (.object p)) (hfree : id ∉ s.chainAbove prototype) :
    Walk (s.setPrototype id prototype).prototype? id (id :: s.chainAbove prototype) := by
  have link := prototype?_setPrototype hid prototype
  cases prototype with
  | none => exact .stop (by rw [link, if_pos rfl])
  | some p =>
    refine .step (by rw [link, if_pos rfl]) ?_
    refine (ha.walk_prototypeChain hc (held p rfl)).congr ?_
    -- the chain of the prototype does not come to the object, so its links are the old ones
    intro b hb
    have hne : id ≠ b := by
      rintro rfl
      exact hfree hb
    rw [link, if_neg hne]

/-- An object that does not fall back on the changed one keeps its chain. -/
theorem walk_setPrototype_of_notMem (hid : s.Has (.object id)) (hother : s.Has (.object other))
    (h : id ∉ s.prototypeChain other) :
    Walk (s.setPrototype id prototype).prototype? other (s.prototypeChain other) := by
  refine (ha.walk_prototypeChain hc hother).congr ?_
  intro b hb
  have hne : id ≠ b := by
    rintro rfl
    exact h hb
  rw [prototype?_setPrototype hid, if_neg hne]

/-- An object that falls back on the changed one does so as before, and then along the new chain. -/
theorem walk_setPrototype_of_eq (hid : s.Has (.object id))
    (held : ∀ p ∈ prototype, s.Has (.object p)) (hfree : id ∉ s.chainAbove prototype)
    (hother : s.Has (.object other)) {before after : List ObjectId}
    (h : s.prototypeChain other = before ++ id :: after) :
    Walk (s.setPrototype id prototype).prototype? other
      (before ++ id :: s.chainAbove prototype) := by
  have hwalk := ha.walk_prototypeChain hc hother
  rw [h] at hwalk
  refine Walk.splice ?_ (walk_setPrototype_self hc ha hid held hfree) hwalk
  intro c hne
  rw [prototype?_setPrototype hid, if_neg hne.symm]

end

/-- Whatever the permit, the change is one that evaluation may make. -/
theorem change_setPrototype (π : Permit) (hid : s.Has (.object id))
    (held : ∀ p ∈ prototype, s.Has (.object p)) (hfree : id ∉ s.chainAbove prototype) :
    Change π s (s.setPrototype id prototype) :=
  .setPrototype id prototype hid (checkPrototype_eq_ok_iff.mpr hfree) held

end Store

namespace Eval

variable {m : Machine} {id : ObjectId} {prototype : Option ObjectId}

/-- A prototype that would close a circle is refused, and nothing happens. -/
theorem setPrototype_of_mem (h : id ∈ m.store.chainAbove prototype) :
    Eval.setPrototype id prototype m = .error .cyclicPrototype m :=
  bind_error (Does.query_error (Store.checkPrototype_of_mem h))

/-- Any other prototype is accepted. -/
theorem setPrototype_of_notMem (h : id ∉ m.store.chainAbove prototype) :
    Eval.setPrototype id prototype m =
      .ok () { m with store := m.store.setPrototype id prototype } :=
  bind_ok (Does.query_ok (Store.checkPrototype_eq_ok_iff.mpr h))

end Eval

namespace Session

open Eval

/-- In every machine whose references lead somewhere and whose prototypes do not run in circles, an
object is refused a prototype exactly if the chain of that prototype comes to the object, and then
the machine is as it was. Otherwise only this one link is another. From then on

* the object falls back on the prototype, and on what the prototype fell back on;
* an object whose chain did not come to this one has the chain that it had;
* an object whose chain did has it up to this one, and then that of the prototype.

Before and after, a chain is all that following the links comes to. -/
theorem setPrototype_splices (m : Machine) (hc : m.store.Closed) (ha : m.store.Acyclic)
    (id : ObjectId) (prototype : Option ObjectId) (hid : m.store.Has (.object id))
    (held : ∀ p ∈ prototype, m.store.Has (.object p)) :
    let s := m.store
    let above := s.chainAbove prototype
    (∀ other, s.Has (.object other) → Walk s.prototype? other (s.prototypeChain other)) ∧
    (id ∈ above → Eval.setPrototype id prototype m = .error .cyclicPrototype m) ∧
    (id ∉ above → ∃ s', Eval.setPrototype id prototype m = .ok () { m with store := s' } ∧
      s' = s.setPrototype id prototype ∧ s'.prototypeChain id = id :: above ∧
      ∀ other, s.Has (.object other) →
        Walk s'.prototype? other (s'.prototypeChain other) ∧
        (id ∉ s.prototypeChain other → s'.prototypeChain other = s.prototypeChain other) ∧
        ∀ before after, s.prototypeChain other = before ++ id :: after →
          s'.prototypeChain other = before ++ id :: above) := by
  refine ⟨fun other hother => ha.walk_prototypeChain hc hother, setPrototype_of_mem, ?_⟩
  intro hfree
  refine ⟨_, setPrototype_of_notMem hfree, rfl, ?_⟩
  -- the store is closed and without circles after the change too, so walks are chains
  have hchange := Store.change_setPrototype ⟨0, fun _ _ => True, fun _ _ => True, False⟩
    hid held hfree
  have hc' := hchange.closed hc
  have ha' := hchange.acyclic hc ha
  have chain : ∀ {other l}, m.store.Has (.object other) →
      Walk (m.store.setPrototype id prototype).prototype? other l →
      (m.store.setPrototype id prototype).prototypeChain other = l :=
    fun hother hwalk => hc'.prototypeChain_eq hwalk (hchange.has hother)
  refine ⟨chain hid (Store.walk_setPrototype_self hc ha hid held hfree), ?_⟩
  intro other hother
  refine ⟨ha'.walk_prototypeChain hc' (hchange.has hother), ?_, ?_⟩
  · intro hnot
    exact chain hother (Store.walk_setPrototype_of_notMem hc ha hid hother hnot)
  · intro before after hsplit
    exact chain hother (Store.walk_setPrototype_of_eq hc ha hid held hfree hother hsplit)

/-- Of three objects, the second falls back on the first: the first may not fall back on the second,
but on the third, and then the second does so too. -/
theorem setPrototype_splices_three :
    let m := (play false [(12, .execute
      "const a = \x7b\x7d; const b = std::create(a); const c = \x7b\x7d;")]).machine
    m.store.Closed ∧ m.store.Acyclic ∧ m.store.prototypeChain ⟨9⟩ = [⟨9⟩, ⟨8⟩] ∧
      Eval.setPrototype ⟨8⟩ (some ⟨9⟩) m = .error .cyclicPrototype m ∧
      ∃ s', Eval.setPrototype ⟨8⟩ (some ⟨10⟩) m = .ok () { m with store := s' } ∧
        s'.prototypeChain ⟨9⟩ = [⟨9⟩, ⟨8⟩, ⟨10⟩] := by
  intro m
  have hordered : m.store.Ordered :=
    (play_spec false _).2.keeps Change.ordered ordered_firstStore
  have hstore : (m.store.objects.size, m.store.prototypeChain ⟨9⟩, m.store.prototypeChain ⟨10⟩) =
      (11, [⟨9⟩, ⟨8⟩], [⟨10⟩]) := by
    dsimp only [m]
    cbv
  simp only [Prod.mk.injEq] at hstore
  obtain ⟨hsize, hsecond, hthird⟩ := hstore
  have there : ∀ i < 11, m.store.Has (.object ⟨i⟩) := by
    intro i hi
    show i < m.store.objects.size
    omega
  have hrefused := (setPrototype_splices m hordered.closed hordered.acyclic ⟨8⟩ (some ⟨9⟩)
    (there 8 (by decide)) (by simpa using there 9 (by decide))).2.1
  obtain ⟨s', hs', -, -, hchains⟩ := (setPrototype_splices m hordered.closed hordered.acyclic ⟨8⟩
    (some ⟨10⟩) (there 8 (by decide)) (by simpa using there 10 (by decide))).2.2
    (by simp [Store.chainAbove, hthird])
  refine ⟨hordered.closed, hordered.acyclic, hsecond, hrefused ?_, s', hs', ?_⟩
  · simp [Store.chainAbove, hsecond]
  · have hlast := (hchains ⟨9⟩ (there 9 (by decide))).2.2 [⟨9⟩] [] hsecond
    simpa [Store.chainAbove, hthird] using hlast

end Session

end Scriptlet
