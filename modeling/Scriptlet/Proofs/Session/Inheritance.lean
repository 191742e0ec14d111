import Scriptlet.Proofs.Session.CallPaths
import Scriptlet.Proofs.Session.Prototype

/-!
# Prototype lookup is coherent

Three questions follow the prototypes of an object: what a property is, whether there is one, and
whether the object is an instance of another. They are answered one by one along the chain, and
agree with each other in every store that a session comes to (`lookup_coherent`):

* a property is that of the first object on the chain that has it;
* being an instance is to have the other object further along the chain. That is a strict order,
  because no chain comes back to an object (`Store.ChainsEnd`);
* an instance has every property that the other object has.
-/

namespace Scriptlet

/-- A walk begins where it starts from. -/
theorem Walk.start_unique {α : Type} {next : α → Option α} {a b : α} {l : List α}
    (ha : Walk next a l) (hb : Walk next b l) : a = b := by
  cases ha with
  | stop _ => cases hb <;> rfl
  | step _ _ => cases hb <;> rfl

namespace Store

variable {s : Store} {x p q : ObjectId}

/-- Being an instance of an object, as the operator tells it. -/
def InstanceOf (s : Store) (x p : ObjectId) : Prop :=
  s.isInstance (.object x) (.object p) = .ok true

/-- An object has a property itself. -/
def Owns (s : Store) (o : ObjectId) (name : String) : Prop := name ∈ (s.properties o).keys

theorem owns_iff_get? {o : ObjectId} {name : String} :
    s.Owns o name ↔ ∃ p, (s.properties o).get? name = some p := by
  rw [Owns, ← Table.contains_iff_mem_keys, Table.contains, Option.isSome_iff_exists]

/-! ## Properties -/

theorem hasProperty_iff (name : String) :
    s.hasProperty x name = true ↔ ∃ o ∈ s.prototypeChain x, s.Owns o name := by
  simp only [hasProperty, List.any_eq_true, Table.contains_iff_mem_keys, Owns]

/-- A property that is found is that of the first object on the chain that has it. -/
theorem getProperty_of_hasProperty {name : String} (h : s.hasProperty x name = true) :
    ∃ before o after p, s.prototypeChain x = before ++ o :: after ∧
      (∀ b ∈ before, ¬ s.Owns b name) ∧ (s.properties o).get? name = some p ∧
      s.getProperty x name = p.value := by
  obtain ⟨o, ho, howns⟩ := (hasProperty_iff name).mp h
  obtain ⟨p, hp⟩ := owns_iff_get?.mp howns
  cases hfound : (s.prototypeChain x).findSome? fun o => (s.properties o).get? name with
  | none => simp [List.findSome?_eq_none_iff.mp hfound o ho] at hp
  | some found =>
    obtain ⟨before, first, after, hsplit, hfirst, hbefore⟩ :=
      List.findSome?_eq_some_iff.mp hfound
    refine ⟨before, first, after, found, hsplit, ?_, hfirst, ?_⟩
    · intro b hb hown
      obtain ⟨q, hq⟩ := owns_iff_get?.mp hown
      rw [hbefore b hb] at hq
      cases hq
    · rw [getProperty, hfound]
      rfl

/-! ## Instances -/

/-- Of two objects it is always told whether the one is an instance of the other: it is, if the
other object is further along its chain. -/
theorem isInstance_object (x p : ObjectId) :
    s.isInstance (.object x) (.object p) = .ok (decide (p ∈ s.prototypeChain x ∧ p ≠ x)) := by
  simp only [isInstance, inherits, Except.ok.injEq, Bool.decide_and, List.contains_eq_mem]
  rw [Bool.and_comm, bne_comm, decide_not]
  rfl

theorem instanceOf_iff : s.InstanceOf x p ↔ p ∈ s.prototypeChain x ∧ p ≠ x := by
  rw [InstanceOf, isInstance_object, Except.ok.injEq, decide_eq_true_iff]

/-- The chain of an object on a chain is the rest of that chain. -/
theorem ChainsEnd.suffix (h : s.ChainsEnd) (hp : p ∈ s.prototypeChain x) :
    s.prototypeChain p <:+ s.prototypeChain x := by
  obtain ⟨rest, hrest, hsuffix⟩ := (h.walk x).of_mem hp
  rwa [(h.walk p).unique hrest]

/-- Of two objects on each other's chains neither has the longer chain, so they are one. -/
theorem ChainsEnd.eq_of_mem_of_mem (h : s.ChainsEnd) (hp : p ∈ s.prototypeChain x)
    (hx : x ∈ s.prototypeChain p) : p = x := by
  have hchains : s.prototypeChain p = s.prototypeChain x :=
    (h.suffix hp).eq_of_length_le (h.suffix hx).length_le
  have hwalk := h.walk p
  rw [hchains] at hwalk
  -- one list is a walk from both
  exact hwalk.start_unique (h.walk x)

theorem ChainsEnd.instanceOf_asymm (h : s.ChainsEnd) (hxp : s.InstanceOf x p) :
    ¬ s.InstanceOf p x := by
  intro hpx
  obtain ⟨hp, hne⟩ := instanceOf_iff.mp hxp
  obtain ⟨hx, -⟩ := instanceOf_iff.mp hpx
  exact hne (h.eq_of_mem_of_mem hp hx)

theorem ChainsEnd.instanceOf_trans (h : s.ChainsEnd) (hxp : s.InstanceOf x p)
    (hpq : s.InstanceOf p q) : s.InstanceOf x q := by
  obtain ⟨hp, -⟩ := instanceOf_iff.mp hxp
  obtain ⟨hq, -⟩ := instanceOf_iff.mp hpq
  refine instanceOf_iff.mpr ⟨(h.suffix hp).subset hq, ?_⟩
  -- were it the object itself again, the two would be instances of each other
  rintro rfl
  exact h.instanceOf_asymm hxp hpq

/-! ## Both -/

/-- An instance finds every property that the other object finds: its chain goes on along the other
object's chain. -/
theorem ChainsEnd.hasProperty_of_instanceOf (h : s.ChainsEnd) (hxp : s.InstanceOf x p)
    {name : String} (hhas : s.hasProperty p name = true) : s.hasProperty x name = true := by
  obtain ⟨hp, -⟩ := instanceOf_iff.mp hxp
  obtain ⟨o, ho, howns⟩ := (hasProperty_iff name).mp hhas
  exact (hasProperty_iff name).mpr ⟨o, (h.suffix hp).subset ho, howns⟩

/-- The keys of an object are texts, and those that are found are the properties. -/
theorem membership_object_iff {key : Value} :
    s.membership key (.object x) = .ok (.bool true) ↔
      ∃ name, key.characters? = some name ∧ s.hasProperty x name = true := by
  simp only [membership]
  cases key.characters? with
  | none => simp
  | some name => simp [Value.bool]

/-- The questions that follow the prototypes of an object agree. -/
structure Coherent (s : Store) : Prop where
  /-- A chain is all that following the prototypes comes to. -/
  chain : ∀ x, Walk s.prototype? x (s.prototypeChain x)
  has_iff : ∀ x name, s.hasProperty x name = true ↔ ∃ o ∈ s.prototypeChain x, s.Owns o name
  get_of_has : ∀ x name, s.hasProperty x name = true →
    ∃ before o after p, s.prototypeChain x = before ++ o :: after ∧
      (∀ b ∈ before, ¬ s.Owns b name) ∧ (s.properties o).get? name = some p ∧
      s.getProperty x name = p.value
  get_of_not_has : ∀ x name, s.hasProperty x name = false → s.getProperty x name = .undefined
  instance_eq : ∀ x p,
    s.isInstance (.object x) (.object p) = .ok (decide (p ∈ s.prototypeChain x ∧ p ≠ x))
  irrefl : ∀ x, ¬ s.InstanceOf x x
  asymm : ∀ x p, s.InstanceOf x p → ¬ s.InstanceOf p x
  trans : ∀ x p q, s.InstanceOf x p → s.InstanceOf p q → s.InstanceOf x q
  keys_subset : ∀ x p, s.InstanceOf x p → ∀ key,
    s.membership key (.object p) = .ok (.bool true) →
      s.membership key (.object x) = .ok (.bool true)

/-- That chains end is all that the questions need to agree. -/
theorem ChainsEnd.coherent (h : s.ChainsEnd) : s.Coherent where
  chain := h.walk
  has_iff _ := hasProperty_iff
  get_of_has _ _ := getProperty_of_hasProperty
  get_of_not_has _ _ := getProperty_of_not_hasProperty
  instance_eq := isInstance_object
  irrefl x hx := (instanceOf_iff.mp hx).2 rfl
  asymm _ _ := h.instanceOf_asymm
  trans _ _ _ := h.instanceOf_trans
  keys_subset x p hxp key hkey := by
    obtain ⟨name, hname, hhas⟩ := membership_object_iff.mp hkey
    exact membership_object_iff.mpr ⟨name, hname, h.hasProperty_of_instanceOf hxp hhas⟩

end Store

/-- The operator answers for an object on its right as `InstanceOf` does. What the right side did
before is taken into account. -/
theorem Eval.instanceOf_eq_true_iff {eval : Eval.Evaluator} {type : Node} {scope : ScopeId}
    {m m' : Machine} {x p : ObjectId} (htest : Eval.typeTest? m.store type scope = none)
    (htype : eval type scope m = .ok (.object p) m') :
    Eval.instanceOf eval (.object x) type scope m = .ok (.bool true) m' ↔
      m'.store.InstanceOf x p := by
  have hask : Eval.ask (Eval.typeTest? · type scope) m = .ok none m :=
    congrArg (EStateM.Result.ok · m) htest
  have hquery : Eval.query (·.isInstance (.object x) (.object p)) m' =
      .ok (decide (p ∈ m'.store.prototypeChain x ∧ p ≠ x)) m' :=
    Eval.Does.query_ok (Store.isInstance_object x p)
  rw [Eval.instanceOf, bind_ok hask]
  dsimp only
  rw [bind_ok htype, bind_ok hquery, Store.instanceOf_iff]
  show EStateM.Result.ok (Value.bool (decide (p ∈ m'.store.prototypeChain x ∧ p ≠ x))) m' = _ ↔ _
  simp [Value.bool]

namespace Session

open Eval

/-- After every sequence of steps on a new session looking along prototypes is coherent, and it is
so in every store that the next step passes through, whether it succeeds or fails. Whatever tree
gives the right side of the operator, unless it is the bare name of a kind of values, the operator
tells instances as the store that is there then does. -/
theorem lookup_coherent (tracing : Bool) (history : List (Nat × Step)) :
    let before := play tracing history
    before.machine.store.Coherent ∧
      (∀ limit step, Changes.Within permit Store.Coherent before.machine.store
        (before.perform limit step).2.machine.store) ∧
      ∀ depth type scope m m' x p, typeTest? m.store type scope = none →
        value depth type scope m = .ok (.object p) m' →
        (instanceOf (value depth) (.object x) type scope m = .ok (.bool true) m' ↔
          m'.store.InstanceOf x p) := by
  obtain ⟨hsound, hchanges⟩ := play_spec tracing history
  have hordered := hchanges.keeps Change.ordered ordered_firstStore
  refine ⟨hordered.chainsEnd.coherent, ?_, ?_⟩
  · intro limit step
    have hwithin := ((hsound.perform limit step).1.within Change.ordered hordered).1
    exact hwithin.imp fun s hs => hs.chainsEnd.coherent
  · intro depth type scope m m' x p htest htype
    exact instanceOf_eq_true_iff htest htype

/-- An object that was created to fall back on another is an instance of it, and has its
property. -/
theorem lookup_coherent_of_created :
    let m := (play false [(12, .execute
      "const a = \x7bk: 1\x7d; const b = std::create(a);")]).machine
    m.store.Coherent ∧
      instanceOf (value 5) (.object ⟨9⟩) (.identifier 1 "a") mainScope m = .ok (.bool true) m ∧
      m.store.membership (.string "k") (.object ⟨9⟩) = .ok (.bool true) := by
  intro m
  have hstore : (m.store.nameValue mainScope "a", m.store.prototypeChain ⟨9⟩,
      typeTest? m.store (.identifier 1 "a") mainScope,
      m.store.membership (.string "k") (.object ⟨8⟩)) =
        (.ok (.object ⟨8⟩), [⟨9⟩, ⟨8⟩], none, .ok (.bool true)) := by
    dsimp only [m]
    cbv
  simp only [Prod.mk.injEq] at hstore
  obtain ⟨hname, hchain, htest, hkey⟩ := hstore
  have htype : value 5 (.identifier 1 "a") mainScope m = .ok (.object ⟨8⟩) m := by
    rw [value_identifier]
    exact Does.query_ok hname
  have hinstance : m.store.InstanceOf ⟨9⟩ ⟨8⟩ :=
    Store.instanceOf_iff.mpr ⟨by simp [hchain], by decide⟩
  obtain ⟨hcoherent, -, hoperator⟩ := lookup_coherent false [(12, .execute
    "const a = \x7bk: 1\x7d; const b = std::create(a);")]
  exact ⟨hcoherent, (hoperator 5 _ mainScope m m ⟨9⟩ ⟨8⟩ htest htype).mpr hinstance,
    hcoherent.keys_subset ⟨9⟩ ⟨8⟩ hinstance _ hkey⟩

end Session

end Scriptlet
