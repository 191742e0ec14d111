import Scriptlet.Proofs.Store.Change

/-!
# Chains that end

`follow` takes so many links of a chain and no more, so it gives a list whether the chain ends or
not. `Walk` says that it does end: the list is the whole chain. A walk meets nothing twice, and as
soon as the bound is no smaller than the walk is long, `follow` takes all of it.

The prototypes of a store are acyclic when there is a walk from every object. Every step of
evaluation keeps them so: a new object has no one that falls back on it yet, and an object gets a
prototype only after the chain of that prototype was searched for the object.
-/

namespace Scriptlet

variable {α : Type} {next next' : α → Option α}

/-- The list is the whole chain from its first member on. -/
inductive Walk (next : α → Option α) : α → List α → Prop where
  | stop {a : α} (h : next a = none) : Walk next a [a]
  | step {a b : α} {rest : List α} (h : next a = some b) (walk : Walk next b rest) :
      Walk next a (a :: rest)

namespace Walk

/-- There is but one way to go. -/
theorem unique {a : α} {l l' : List α} (h : Walk next a l) (h' : Walk next a l') : l = l' := by
  induction h generalizing l' with
  | stop hn =>
    cases h' with
    | stop _ => rfl
    | step hn' _ =>
      rw [hn] at hn'
      cases hn'
  | step hn _ ih =>
    cases h' with
    | stop hn' =>
      rw [hn] at hn'
      cases hn'
    | step hn' walk' =>
      rw [hn] at hn'
      cases hn'
      rw [ih walk']

/-- From every member of a walk the rest of it is a walk. -/
theorem of_mem {a b : α} {l : List α} (h : Walk next a l) (hb : b ∈ l) :
    ∃ rest, Walk next b rest ∧ rest <:+ l := by
  induction h with
  | stop hn =>
    rw [List.mem_singleton.mp hb]
    exact ⟨_, .stop hn, List.suffix_refl _⟩
  | @step a c rest hn walk ih =>
    rcases List.mem_cons.mp hb with rfl | hb
    · exact ⟨_, .step hn walk, List.suffix_refl _⟩
    · obtain ⟨tail, htail, hsuffix⟩ := ih hb
      exact ⟨tail, htail, hsuffix.trans (List.suffix_cons _ _)⟩

/-- A walk meets nothing twice: from a second visit on it would be shorter than from the first. -/
theorem nodup {a : α} {l : List α} (h : Walk next a l) : l.Nodup := by
  induction h with
  | stop _ => exact List.nodup_cons.mpr ⟨List.not_mem_nil, List.nodup_nil⟩
  | @step a b rest hn walk ih =>
    refine List.nodup_cons.mpr ⟨?_, ih⟩
    intro ha
    obtain ⟨again, hagain, hsuffix⟩ := walk.of_mem ha
    have hlength := hsuffix.length_le
    rw [hagain.unique (.step hn walk), List.length_cons] at hlength
    omega

/-- Enough links make the whole walk. -/
theorem follow_eq {a : α} {l : List α} (h : Walk next a l) {bound : Nat}
    (hb : l.length ≤ bound) : follow next bound a = l := by
  induction h generalizing bound with
  | stop hn =>
    cases bound with
    | zero => simp at hb
    | succ bound => rw [follow, hn]
  | step hn _ ih =>
    cases bound with
    | zero => simp at hb
    | succ bound =>
      rw [follow, hn]
      dsimp only
      rw [ih (by simpa using hb)]

/-- A walk stays one when the links of its members do. -/
theorem congr {a : α} {l : List α} (h : Walk next a l) (he : ∀ b ∈ l, next' b = next b) :
    Walk next' a l := by
  induction h with
  | stop hn => exact .stop ((he _ List.mem_cons_self).trans hn)
  | step hn _ ih =>
    refine .step ((he _ List.mem_cons_self).trans hn) (ih ?_)
    intro b hb
    exact he b (List.mem_cons_of_mem _ hb)

end Walk

namespace Store

/-- The prototypes of every object come to an end. -/
def Acyclic (s : Store) : Prop := ∀ id, ∃ l, Walk s.prototype? id l

variable {s : Store}

theorem Closed.has_of_walk (hc : s.Closed) {id : ObjectId} {l : List ObjectId}
    (h : Walk s.prototype? id l) (hid : s.Has (.object id)) : ∀ b ∈ l, s.Has (.object b) := by
  induction h with
  | stop _ =>
    intro b hb
    rw [List.mem_singleton.mp hb]
    exact hid
  | step hn _ ih => exact List.forall_mem_cons.mpr ⟨hid, ih (hc.prototype hn)⟩

/-- A walk along prototypes is no longer than there are objects, so `follow` takes all of it. -/
theorem Closed.walk_length_le (hc : s.Closed) {id : ObjectId} {l : List ObjectId}
    (h : Walk s.prototype? id l) (hid : s.Has (.object id)) : l.length ≤ s.objects.size := by
  have hnodup : (l.map ObjectId.index).Nodup := by
    refine List.Pairwise.map ObjectId.index ?_ h.nodup
    intro a b hne hindex
    exact hne (ObjectId.mk.injEq .. ▸ hindex)
  have hsubset : l.map ObjectId.index ⊆ List.range s.objects.size := by
    intro i hi
    obtain ⟨b, hb, rfl⟩ := List.mem_map.mp hi
    exact List.mem_range.mpr (hc.has_of_walk h hid b hb)
  have hlength := hnodup.length_le_of_subset hsubset
  rwa [List.length_map, List.length_range] at hlength

theorem Closed.prototypeChain_eq (hc : s.Closed) {id : ObjectId} {l : List ObjectId}
    (h : Walk s.prototype? id l) (hid : s.Has (.object id)) : s.prototypeChain id = l :=
  h.follow_eq (hc.walk_length_le h hid)

/-! ## What the steps do to prototypes -/

theorem prototype?_of_not_has {id : ObjectId} (h : ¬ s.Has (.object id)) :
    s.prototype? id = none := by
  have hnone : s.objectAt? id = none := Array.getElem?_eq_none (Nat.le_of_not_lt h)
  rw [prototype?, hnone, Option.bind_none]

theorem prototype?_addObject (o : Object) (id : ObjectId) :
    (s.addObject o).2.prototype? id =
      if id.index = s.objects.size then o.prototype else s.prototype? id := by
  rw [prototype?, objectAt?_addObject]
  split
  · rfl
  · rfl

theorem prototype?_setPrototype {id : ObjectId} (hid : s.Has (.object id))
    (prototype : Option ObjectId) (other : ObjectId) :
    (s.setPrototype id prototype).prototype? other =
      if id = other then prototype else s.prototype? other := by
  rw [prototype?, objectAt?_setPrototype]
  split
  · next he =>
    subst he
    have hsome : s.objectAt? id = some s.objects[id.index] := Array.getElem?_eq_getElem hid
    rw [hsome]
    rfl
  · rfl

/-- Nothing falls back on a new object. -/
theorem Acyclic.addObject (ha : s.Acyclic) (hc : s.Closed) {o : Object}
    (held : ∀ r ∈ o.refs, s.Has r) : (s.addObject o).2.Acyclic := by
  have old : ∀ id, s.Has (.object id) → ∃ l, Walk (s.addObject o).2.prototype? id l := by
    intro id hid
    obtain ⟨l, hl⟩ := ha id
    refine ⟨l, hl.congr ?_⟩
    intro b hb
    have hlt : b.index < s.objects.size := hc.has_of_walk hl hid b hb
    rw [prototype?_addObject, if_neg (by omega)]
  intro id
  by_cases hid : s.Has (.object id)
  · exact old id hid
  · cases hp : (s.addObject o).2.prototype? id with
    | none => exact ⟨_, .stop hp⟩
    | some p =>
      have hnew := hp
      rw [prototype?_addObject, prototype?_of_not_has hid] at hnew
      split at hnew
      · have there : s.Has (.object p) := held _ (by simp [Object.refs, hnew])
        obtain ⟨l, hl⟩ := old p there
        exact ⟨_, .step hp hl⟩
      · cases hnew

/-- An object gets a prototype only if the chain of that prototype does not lead to the object. -/
theorem Acyclic.setPrototype (ha : s.Acyclic) (hc : s.Closed) {id : ObjectId}
    {prototype : Option ObjectId} (hid : s.Has (.object id))
    (hcheck : s.checkPrototype id prototype = .ok ())
    (held : ∀ p ∈ prototype, s.Has (.object p)) : (s.setPrototype id prototype).Acyclic := by
  have link := prototype?_setPrototype hid prototype
  -- the chain of the prototype is as it was
  have above : ∀ p ∈ prototype, ∃ l, Walk (s.setPrototype id prototype).prototype? p l := by
    intro p hp
    obtain ⟨l, hl⟩ := ha p
    have hnot : id ∉ l := by
      intro hmem
      have hchain := hc.prototypeChain_eq hl (held p hp)
      simp [checkPrototype, Option.mem_def.mp hp, hchain, hmem] at hcheck
    refine ⟨l, hl.congr ?_⟩
    intro b hb
    have hne : id ≠ b := fun he => hnot (he ▸ hb)
    rw [link, if_neg hne]
  have here : ∃ l, Walk (s.setPrototype id prototype).prototype? id l := by
    cases prototype with
    | none => exact ⟨_, .stop (by rw [link, if_pos rfl])⟩
    | some p =>
      obtain ⟨l, hl⟩ := above p rfl
      exact ⟨_, .step (by rw [link, if_pos rfl]) hl⟩
  -- every other chain goes on as before until it comes to the object, if it does
  intro other
  obtain ⟨l, hl⟩ := ha other
  induction hl with
  | @stop a hn =>
    by_cases he : id = a
    · exact he ▸ here
    · exact ⟨_, .stop (by rw [link, if_neg he, hn])⟩
  | @step a b rest hn _ ih =>
    by_cases he : id = a
    · exact he ▸ here
    · obtain ⟨l, hl⟩ := ih
      exact ⟨_, .step (by rw [link, if_neg he, hn]) hl⟩

end Store

variable {π : Permit} {s s' : Store}

/-- No step of evaluation closes a circle. -/
theorem Change.acyclic (h : Change π s s') (hc : s.Closed) (ha : s.Acyclic) : s'.Acyclic := by
  cases h with
  | addObject o held code => exact ha.addObject hc held
  | setPrototype id prototype there acyclic held =>
    exact ha.setPrototype hc there acyclic held
  | setProperty id name p =>
    intro other
    obtain ⟨l, hl⟩ := ha other
    exact ⟨l, hl.congr fun b _ => Store.prototype?_setProperty s id b name p⟩
  | _ => exact ha

/-- Every chain of prototypes ends at an object without one and meets no object twice, and looking
further than there are objects finds nothing more. -/
structure Store.ChainsEnd (s : Store) : Prop where
  walk : ∀ id, Walk s.prototype? id (s.prototypeChain id)
  nodup : ∀ id, (s.prototypeChain id).Nodup
  whole : ∀ id bound, s.objects.size ≤ bound →
    follow s.prototype? bound id = s.prototypeChain id

/-- What keeps the chains from running in circles. -/
structure Store.Ordered (s : Store) : Prop where
  closed : s.Closed
  acyclic : s.Acyclic
  inhabited : 0 < s.objects.size

theorem Change.ordered (h : Change π s s') (hs : s.Ordered) : s'.Ordered where
  closed := h.closed hs.closed
  acyclic := h.acyclic hs.closed hs.acyclic
  inhabited := Nat.lt_of_lt_of_le hs.inhabited h.size_le.2.2.1

theorem Store.Ordered.chainsEnd (hs : s.Ordered) : s.ChainsEnd := by
  have bounded : ∀ id, ∃ l, Walk s.prototype? id l ∧ l.length ≤ s.objects.size := by
    intro id
    obtain ⟨l, hl⟩ := hs.acyclic id
    by_cases hid : s.Has (.object id)
    · exact ⟨l, hl, hs.closed.walk_length_le hl hid⟩
    · exact ⟨[id], .stop (Store.prototype?_of_not_has hid), hs.inhabited⟩
  have chain : ∀ {id l}, Walk s.prototype? id l → l.length ≤ s.objects.size →
      s.prototypeChain id = l := fun hl hlength => hl.follow_eq hlength
  refine ⟨?_, ?_, ?_⟩
  · intro id
    obtain ⟨l, hl, hlength⟩ := bounded id
    exact chain hl hlength ▸ hl
  · intro id
    obtain ⟨l, hl, hlength⟩ := bounded id
    exact chain hl hlength ▸ hl.nodup
  · intro id bound hb
    obtain ⟨l, hl, hlength⟩ := bounded id
    rw [chain hl hlength, hl.follow_eq (Nat.le_trans hlength hb)]

end Scriptlet
