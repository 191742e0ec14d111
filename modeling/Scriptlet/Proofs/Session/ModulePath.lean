import Scriptlet.Proofs.Session.CallPaths

/-!
# What can be seen through a module

A path `a::b::c` starts with a name that is looked up from the scope outward. Every further segment
is looked up in the table of the module before it and nowhere else, and has to be exported there.

`Store.Trail` says that segments lead from one module into another, `Store.Blocks` that a segment is
in the way, why, and with which fault. A path with a level of nesting for each of its segments has a
value exactly when the segments lead to an exported variable or function, and otherwise fails with
the fault of the first segment that is in the way. A longer path overflows. The machine stays as it
is in all cases (`path_sees_exports`).

A level stands for the frame of the stack that every further segment takes. The few frames that are
used beside these, the same number for every path, are not counted: where levels run out is right up
to that number.
-/

namespace Scriptlet

/-- The expression that goes from a name through members, each with its line. -/
def Node.path (head : Nat × String) (members : List (Nat × String)) : Node :=
  members.foldl (fun outer member => .moduleAccess member.1 outer member.2)
    (.identifier head.1 head.2)

theorem Node.path_append (head : Nat × String) (members : List (Nat × String))
    (last : Nat × String) :
    Node.path head (members ++ [last]) = .moduleAccess last.1 (Node.path head members) last.2 := by
  rw [path, List.foldl_append]
  rfl

/-- Why a segment of a path is in the way: it is not there, it is there for the module only, or it
is a module where a value is wanted or the other way round. -/
inductive Obstacle where
  | missing
  | hidden
  | misfit

/-- The family of faults that an obstacle is reported under. -/
def Obstacle.kind : Obstacle → Fault.Kind
  | missing => .reference
  | hidden => .runtime
  | misfit => .type

namespace Store

variable {s : Store} {scope : ScopeId} {m inner n : Module} {name : String}
  {names before after : List String} {e : Entity} {v : Value} {why : Obstacle} {fault : Fault}

/-- The module's own table has the entity under the name, and it is exported. -/
def Offers (s : Store) (m : Module) (name : String) (e : Entity) : Prop :=
  (s.entries m.scope).get? name = some e ∧ s.isExported e = true

/-- Segment by segment, the names lead from a module into another one. -/
inductive Trail (s : Store) : Module → List String → Module → Prop
  | here (m : Module) : Trail s m [] m
  | inward {m inner n : Module} {name : String} {names : List String}
      (offered : s.Offers m name (.mod inner)) (rest : Trail s inner names n) :
      Trail s m (name :: names) n

/-- The value of an entity: a copy of what a variable holds, or a function. -/
def Denotes (s : Store) (e : Entity) (v : Value) : Prop :=
  match e with
  | .var x => v = (s.valueOf x).detach
  | .fn f => v = .object f
  | .mod _ => False

/-- The first segment of a path is in the way. -/
inductive BlocksHead (s : Store) (scope : ScopeId) (name : String) : Obstacle → Fault → Prop
  | missing (absent : s.resolve? scope name = none) :
      BlocksHead s scope name .missing (.unresolved name)
  | misfit {e : Entity} (found : s.resolve? scope name = some e)
      (noModule : ∀ m, e ≠ .mod m) : BlocksHead s scope name .misfit (.notAModule name)

/-- A segment below a module is in the way. What stands before the end of the path has to be a
module, what stands there must not be one. -/
inductive Blocks (s : Store) (m : Module) (name : String) (after : List String) :
    Obstacle → Fault → Prop
  | missing (absent : (s.entries m.scope).get? name = none) :
      Blocks s m name after .missing (.unresolved (m.name ++ "::" ++ name))
  | hidden {e : Entity} (found : (s.entries m.scope).get? name = some e)
      (own : s.isExported e = false) : Blocks s m name after .hidden (.notExported name m.name)
  | noModule {e : Entity} (offered : s.Offers m name e) (other : ∀ inner, e ≠ .mod inner)
      (goesOn : after ≠ []) : Blocks s m name after .misfit (.notAModule name)
  | module {inner : Module} (offered : s.Offers m name (.mod inner)) (ends : after = []) :
      Blocks s m name after .misfit (.moduleAsValue name)

/-- From a module, the names lead to a variable or function with the value. -/
def Arrives (s : Store) (m : Module) (names : List String) (last : String) (v : Value) : Prop :=
  ∃ n e, s.Trail m names n ∧ s.Offers n last e ∧ s.Denotes e v

/-- From a module, the names lead up to an obstacle. -/
def Halts (s : Store) (m : Module) (names : List String) (why : Obstacle) (fault : Fault) : Prop :=
  ∃ before name after n, names = before ++ name :: after ∧ s.Trail m before n ∧
    s.Blocks n name after why fault

theorem BlocksHead.kind_eq (h : s.BlocksHead scope name why fault) : fault.kind = why.kind := by
  cases h <;> rfl

theorem Blocks.kind_eq (h : s.Blocks m name after why fault) : fault.kind = why.kind := by
  cases h <;> rfl

/-! ## One segment -/

/-- The module that a segment gives. -/
def innerModule (s : Store) (m : Module) (name : String) : Except Fault Module := do
  asModule (← s.member m name) name

/-- The value that a segment gives. -/
def memberValue (s : Store) (m : Module) (name : String) : Except Fault Value := do
  s.entityValue (← s.member m name) name

theorem Offers.member_eq (h : s.Offers m name e) : s.member m name = .ok e := by
  rw [member, h.1]
  exact if_pos h.2

theorem Offers.innerModule_eq (h : s.Offers m name (.mod inner)) :
    s.innerModule m name = .ok inner := by
  rw [innerModule, h.member_eq]
  rfl

theorem Offers.memberValue_eq (h : s.Offers m name e) (hv : s.Denotes e v) :
    s.memberValue m name = .ok v := by
  rw [memberValue, h.member_eq]
  cases e with
  | var x | fn f =>
    cases hv
    rfl
  | mod inner => exact hv.elim

theorem member_of_hidden (found : (s.entries m.scope).get? name = some e)
    (own : s.isExported e = false) : s.member m name = .error (.notExported name m.name) := by
  rw [member, found]
  exact if_neg (by rw [own]; decide)

theorem Blocks.innerModule_eq (h : s.Blocks m name after why fault) (goesOn : after ≠ []) :
    s.innerModule m name = .error fault := by
  cases h with
  | missing absent =>
    rw [innerModule, member, absent]
    rfl
  | hidden found own =>
    rw [innerModule, member_of_hidden found own]
    rfl
  | @noModule e offered other =>
    rw [innerModule, offered.member_eq]
    cases e with
    | var x | fn f => rfl
    | mod inner => exact absurd rfl (other inner)
  | module offered ends => exact absurd ends goesOn

theorem Blocks.memberValue_eq (h : s.Blocks m name [] why fault) :
    s.memberValue m name = .error fault := by
  cases h with
  | missing absent =>
    rw [memberValue, member, absent]
    rfl
  | hidden found own =>
    rw [memberValue, member_of_hidden found own]
    rfl
  | noModule offered other goesOn => exact absurd rfl goesOn
  | module offered =>
    rw [memberValue, offered.member_eq]
    rfl

/-- A module offers a segment or has nothing to offer under its name, and then the segment is in
the way wherever it stands. -/
theorem offers_or_blocks (s : Store) (m : Module) (name : String) (after : List String) :
    (∃ e, s.Offers m name e) ∨ ∃ why fault, s.Blocks m name after why fault := by
  cases found : (s.entries m.scope).get? name with
  | none => exact .inr ⟨_, _, .missing found⟩
  | some e =>
    cases own : s.isExported e with
    | true => exact .inl ⟨e, found, own⟩
    | false => exact .inr ⟨_, _, .hidden found own⟩

/-! ## All segments -/

theorem Trail.foldlM_eq (h : s.Trail m names n) : names.foldlM s.innerModule m = .ok n := by
  induction h with
  | here => rfl
  | inward offered rest ih =>
    rw [List.foldlM_cons, offered.innerModule_eq]
    exact ih

/-- Segments before an obstacle are passed, and nothing behind it is looked at. -/
theorem Halts.foldlM_eq {last : String} (h : s.Halts m (names ++ [last]) why fault) :
    (names.foldlM s.innerModule m >>= (s.memberValue · last)) = .error fault := by
  obtain ⟨before, name, after, n, hnames, trail, blocks⟩ := h
  rcases List.eq_nil_or_concat after with rfl | ⟨between, final, rfl⟩
  · obtain ⟨rfl, hlast⟩ := List.append_inj' hnames rfl
    cases hlast
    rw [trail.foldlM_eq]
    exact blocks.memberValue_eq
  · rw [List.concat_eq_append, ← List.cons_append, ← List.append_assoc] at hnames
    obtain ⟨rfl, -⟩ := List.append_inj' hnames rfl
    have hfold : (name :: between).foldlM s.innerModule n = .error fault := by
      rw [List.foldlM_cons, blocks.innerModule_eq (by simp)]
      rfl
    rw [List.foldlM_append, trail.foldlM_eq]
    show ((name :: between).foldlM s.innerModule n >>= _) = _
    rw [hfold]
    rfl

theorem Arrives.cons {last : String} (offered : s.Offers m name (.mod inner))
    (h : s.Arrives inner names last v) : s.Arrives m (name :: names) last v := by
  obtain ⟨n, e, trail, rest⟩ := h
  exact ⟨n, e, .inward offered trail, rest⟩

theorem Halts.of_blocks (h : s.Blocks m name names why fault) :
    s.Halts m (name :: names) why fault :=
  ⟨[], name, names, m, rfl, .here m, h⟩

theorem Halts.cons (offered : s.Offers m name (.mod inner)) (h : s.Halts inner names why fault) :
    s.Halts m (name :: names) why fault := by
  obtain ⟨before, segment, after, n, rfl, trail, blocks⟩ := h
  exact ⟨name :: before, segment, after, n, rfl, .inward offered trail, blocks⟩

/-- The names lead to a value or up to an obstacle. -/
theorem arrives_or_halts (s : Store) (last : String) : ∀ (names : List String) (m : Module),
    (∃ v, s.Arrives m names last v) ∨ ∃ why fault, s.Halts m (names ++ [last]) why fault
  | [], m => by
    rcases s.offers_or_blocks m last [] with ⟨e, offered⟩ | ⟨why, fault, blocks⟩
    · cases e with
      | var x => exact .inl ⟨_, m, .var x, .here m, offered, rfl⟩
      | fn f => exact .inl ⟨_, m, .fn f, .here m, offered, rfl⟩
      | mod inner => exact .inr ⟨_, _, .of_blocks (.module offered rfl)⟩
    · exact .inr ⟨why, fault, .of_blocks blocks⟩
  | name :: names, m => by
    rcases s.offers_or_blocks m name (names ++ [last]) with ⟨e, offered⟩ | ⟨why, fault, blocks⟩
    · cases e with
      | var x => exact .inr ⟨_, _, .of_blocks (.noModule offered nofun (by simp))⟩
      | fn f => exact .inr ⟨_, _, .of_blocks (.noModule offered nofun (by simp))⟩
      | mod inner =>
        rcases arrives_or_halts s last names inner with ⟨v, arrives⟩ | ⟨why, fault, halts⟩
        · exact .inl ⟨v, arrives.cons offered⟩
        · exact .inr ⟨why, fault, halts.cons offered⟩
    · exact .inr ⟨why, fault, .of_blocks blocks⟩

/-! ## The first segment -/

/-- The module that a name stands for. -/
def headModule (s : Store) (scope : ScopeId) (name : String) : Except Fault Module :=
  match s.resolve? scope name with
  | none => .error (.unresolved name)
  | some e => asModule e name

theorem BlocksHead.headModule_eq (h : s.BlocksHead scope name why fault) :
    s.headModule scope name = .error fault := by
  cases h with
  | missing absent => rw [headModule, absent]
  | @misfit e found noModule =>
    rw [headModule, found]
    cases e with
    | var x | fn f => rfl
    | mod m => exact absurd rfl (noModule m)

theorem module_or_blocksHead (s : Store) (scope : ScopeId) (name : String) :
    (∃ m, s.resolve? scope name = some (.mod m)) ∨
      ∃ why fault, s.BlocksHead scope name why fault := by
  cases found : s.resolve? scope name with
  | none => exact .inr ⟨_, _, .missing found⟩
  | some e =>
    cases e with
    | var x => exact .inr ⟨_, _, .misfit found nofun⟩
    | fn f => exact .inr ⟨_, _, .misfit found nofun⟩
    | mod m => exact .inl ⟨m, rfl⟩

/-- The module that a path names is found from its first segment on, although the path is taken
apart from its last one. -/
theorem pathModule_path (s : Store) (scope : ScopeId) (head : Nat × String)
    (members : List (Nat × String)) {limit : Nat} (room : members.length < limit) :
    s.pathModule scope limit (.path head members) =
      (s.headModule scope head.2 >>= (members.map (·.2)).foldlM s.innerModule) := by
  induction members using List.reverseRecOn generalizing limit with
  | nil =>
    obtain ⟨limit, rfl⟩ := Nat.exists_eq_succ_of_ne_zero (Nat.ne_of_gt room)
    show s.headModule scope head.2 = _
    cases s.headModule scope head.2 <;> rfl
  | append_singleton members last ih =>
    rw [List.length_append, List.length_singleton] at room
    obtain ⟨limit, rfl⟩ := Nat.exists_eq_succ_of_ne_zero (Nat.ne_of_gt (Nat.zero_lt_of_lt room))
    rw [Node.path_append, pathModule, ih (Nat.lt_of_succ_lt_succ room), bind_assoc]
    refine bind_congr fun m => ?_
    rw [List.map_append, List.foldlM_append]
    refine bind_congr fun n => ?_
    exact (bind_pure (s.innerModule n last.2)).symm

/-- A path with more segments than levels left is not looked at: the levels are used up on the way
to its first segment. -/
theorem pathModule_long (s : Store) (scope : ScopeId) (head : Nat × String)
    (members : List (Nat × String)) {limit : Nat} (long : limit ≤ members.length) :
    s.pathModule scope limit (.path head members) = .error .overflow := by
  induction members using List.reverseRecOn generalizing limit with
  | nil =>
    obtain rfl := Nat.le_zero.mp long
    rfl
  | append_singleton members last ih =>
    cases limit with
    | zero => rw [pathModule]
    | succ limit =>
      rw [List.length_append, List.length_singleton] at long
      rw [Node.path_append, pathModule, ih (Nat.le_of_succ_le_succ long)]
      rfl

/-- A path leads to a value: its first segment stands for a module in the scope or around it, and
from there the others lead to the value. -/
def Reaches (s : Store) (scope : ScopeId) (head : String) (names : List String) (last : String)
    (v : Value) : Prop :=
  ∃ m, s.resolve? scope head = some (.mod m) ∧ s.Arrives m names last v

/-- A path leads up to an obstacle: the first segment is one, or the others lead to one. -/
def Stops (s : Store) (scope : ScopeId) (head : String) (names : List String) (why : Obstacle)
    (fault : Fault) : Prop :=
  s.BlocksHead scope head why fault ∨
    ∃ m, s.resolve? scope head = some (.mod m) ∧ s.Halts m names why fault

/-- The value of a path, found segment by segment. -/
def pathValue (s : Store) (scope : ScopeId) (head : String) (names : List String)
    (last : String) : Except Fault Value := do
  let m ← s.headModule scope head
  let n ← names.foldlM s.innerModule m
  s.memberValue n last

section

variable {head last : String}

theorem pathValue_of_module (found : s.resolve? scope head = some (.mod m)) :
    s.pathValue scope head names last =
      (names.foldlM s.innerModule m >>= (s.memberValue · last)) := by
  rw [pathValue, headModule, found]
  rfl

theorem Reaches.pathValue_eq (h : s.Reaches scope head names last v) :
    s.pathValue scope head names last = .ok v := by
  obtain ⟨m, found, n, e, trail, offered, hv⟩ := h
  rw [pathValue_of_module found, trail.foldlM_eq]
  exact offered.memberValue_eq hv

theorem Stops.pathValue_eq (h : s.Stops scope head (names ++ [last]) why fault) :
    s.pathValue scope head names last = .error fault := by
  rcases h with blocks | ⟨m, found, halts⟩
  · rw [pathValue, blocks.headModule_eq]
    rfl
  · rw [pathValue_of_module found, halts.foldlM_eq]

theorem Stops.kind_eq (h : s.Stops scope head names why fault) : fault.kind = why.kind := by
  rcases h with blocks | ⟨m, -, before, name, after, n, -, -, blocks⟩
  · exact blocks.kind_eq
  · exact blocks.kind_eq

theorem reaches_or_stops (s : Store) (scope : ScopeId) (head : String) (names : List String)
    (last : String) : (∃ v, s.Reaches scope head names last v) ∨
      ∃ why fault, s.Stops scope head (names ++ [last]) why fault := by
  rcases s.module_or_blocksHead scope head with ⟨m, found⟩ | ⟨why, fault, blocks⟩
  · rcases s.arrives_or_halts last names m with ⟨v, arrives⟩ | ⟨why, fault, halts⟩
    · exact .inl ⟨v, m, found, arrives⟩
    · exact .inr ⟨why, fault, .inr ⟨m, found, halts⟩⟩
  · exact .inr ⟨why, fault, .inl blocks⟩

theorem pathValue_eq_ok_iff :
    s.pathValue scope head names last = .ok v ↔ s.Reaches scope head names last v := by
  refine ⟨?_, Reaches.pathValue_eq⟩
  intro h
  rcases s.reaches_or_stops scope head names last with ⟨w, reaches⟩ | ⟨why, fault, stops⟩
  · rw [reaches.pathValue_eq] at h
    cases h
    exact reaches
  · rw [stops.pathValue_eq] at h
    cases h

theorem pathValue_eq_error_iff :
    s.pathValue scope head names last = .error fault ↔
      ∃ why, s.Stops scope head (names ++ [last]) why fault := by
  refine ⟨?_, fun ⟨_, stops⟩ => stops.pathValue_eq⟩
  intro h
  rcases s.reaches_or_stops scope head names last with ⟨w, reaches⟩ | ⟨why, fault', stops⟩
  · rw [reaches.pathValue_eq] at h
    cases h
  · rw [stops.pathValue_eq] at h
    cases h
    exact ⟨why, stops⟩

end

end Store

namespace Eval

/-- A path is an expression that only asks the store. -/
theorem value_path {depth : Nat} (head last : Nat × String) (outer : List (Nat × String))
    (scope : ScopeId) (room : outer.length + 2 ≤ depth) :
    value depth (.path head (outer ++ [last])) scope =
      query (·.pathValue scope head.2 (outer.map (·.2)) last.2) := by
  obtain ⟨depth, rfl⟩ := Nat.exists_eq_succ_of_ne_zero (Nat.ne_of_gt (Nat.zero_lt_of_lt room))
  rw [Node.path_append, value, valueOf]
  congr 1
  funext s
  rw [Store.pathModule_path s scope head outer (Nat.le_of_succ_le_succ room), bind_assoc]
  rfl

theorem value_path_long {depth : Nat} (head last : Nat × String) (outer : List (Nat × String))
    (scope : ScopeId) (m : Machine) (long : depth < outer.length + 2) :
    value depth (.path head (outer ++ [last])) scope m = .error .overflow m := by
  cases depth with
  | zero => rfl
  | succ depth =>
    rw [Node.path_append, value, valueOf]
    refine Does.query_error ?_
    rw [Store.pathModule_long m.store scope head outer (by omega)]
    rfl

/-- In every machine and every scope, a path that goes through `outer` to `last`, with a level of
nesting for each of its segments,

* has a value exactly when its first segment stands for a module in the scope or around it, each
  further segment is exported by the module before it, and the last one is a variable or function;
  the value is that of the variable or function;
* fails in all other cases, with the fault of the first segment that is in the way: of the reference
  family if it is missing, of the runtime family if it is not exported, of the type family if it is
  no module before the end or a module there;
* leaves the machine as it is.

A path with more segments than levels overflows, and leaves the machine as it is, too. -/
theorem path_sees_exports (depth : Nat) (m : Machine) (scope : ScopeId) (head last : Nat × String)
    (outer : List (Nat × String)) :
    (outer.length + 2 ≤ depth →
      (∀ v m', value depth (.path head (outer ++ [last])) scope m = .ok v m' ↔
        m.store.Reaches scope head.2 (outer.map (·.2)) last.2 v ∧ m' = m) ∧
      ∀ fault m', value depth (.path head (outer ++ [last])) scope m = .error fault m' ↔
        (∃ why, m.store.Stops scope head.2 (outer.map (·.2) ++ [last.2]) why fault ∧
          fault.kind = why.kind) ∧ m' = m) ∧
    (depth < outer.length + 2 →
      value depth (.path head (outer ++ [last])) scope m = .error .overflow m) := by
  refine ⟨fun room => ?_, fun long => value_path_long head last outer scope m long⟩
  rw [value_path head last outer scope room]
  refine ⟨fun v m' => ?_, fun fault m' => ?_⟩
  · rw [query_eq_ok_iff, Store.pathValue_eq_ok_iff]
  · rw [query_eq_error_iff, Store.pathValue_eq_error_iff]
    refine and_congr_left fun _ => exists_congr fun why => ?_
    exact (and_iff_left_of_imp Store.Stops.kind_eq).symm

theorem path_through_nested_modules :
    let source := "const y = 1 module m \x7b export module n \x7b export const y = 2 \x7d \x7d"
    let m := (Session.play false [(16, .load source)]).machine
    3 ≤ 3 ∧ value 3 (.path (1, "m") ([(1, "n")] ++ [(1, "y")])) Session.mainScope m =
      .ok (.int 2) m := by
  intro source m
  have hroom : 3 ≤ 3 := Nat.le_refl 3
  have hvalue : m.store.pathValue Session.mainScope "m" ["n"] "y" = .ok (.int 2) := by
    subst m source
    cbv
  refine ⟨hroom, ?_⟩
  apply (((path_sees_exports 3 m Session.mainScope (1, "m") (1, "y") [(1, "n")]).1 hroom).1 _ m).mpr
  exact ⟨Store.pathValue_eq_ok_iff.mp hvalue, rfl⟩

/-- Twenty thousand segments are too many for fewer levels. The first one is missing, and the path
does not fail with that. -/
theorem long_path_overflows :
    let m := (Session.play false []).machine
    let outer := List.replicate 19998 (1, "m")
    m.store.Stops Session.mainScope "m" (outer.map (·.2) ++ ["m"]) .missing (.unresolved "m") ∧
      ∀ levels < 20000, value levels (.path (1, "m") (outer ++ [(1, "m")])) Session.mainScope m =
        .error .overflow m := by
  intro m outer
  have habsent : m.store.resolve? Session.mainScope "m" = none := by cbv
  have hlength : outer.length = 19998 := List.length_replicate
  refine ⟨.inl (.missing habsent), fun levels hlevels => value_path_long _ _ _ _ _ ?_⟩
  rw [hlength]
  exact hlevels

-- a constant around the module is no member of it, and a member that is not exported is no help
example :
    let source := "const x = 1 module m \x7b const z = 3 export const y = x + 1 \x7d"
    let s := (Session.play false [(12, .load source)]).machine.store
    ["x", "y", "z"].map (s.pathValue Session.mainScope "m" []) =
      [.error (.unresolved "m::x"), .ok (.int 2), .error (.notExported "z" "m")] := by
  cbv

end Eval

end Scriptlet
