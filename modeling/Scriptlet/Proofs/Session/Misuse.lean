import Scriptlet.Proofs.Session.CallPaths
import Scriptlet.Proofs.Store.Containment

/-!
# Values used for what they are not

Calling what is no function, assigning to a member of what is no object, taking it apart or reading
a member that it cannot have is refused with a fault of the type family, and the fault shows the
value. So the value needs a text: where it has one, the fault is the intended one, and where it has
none, the fault is that of the text (`misuse_reported_with_text`). An array that contains itself is
such a value, however deep nesting may go (`misuse_of_endless_array`).
-/

namespace Scriptlet

/-- A use of a value that not every kind of value allows. -/
inductive Use where
  | call (args : List Node)
  | assign (member : String) (value : Node)
  | destructure (names : List String) (isConst : Bool)
  | read (member : String)

namespace Use

/-- The expression that makes the use of the value of another one. -/
def node (line : Nat) (target : Node) : Use → Node
  | call args => .call line target args
  | assign member value => .reassignment line (.objectAccess line target member) value
  | destructure names isConst => .destructuring line names isConst target
  | read member => .objectAccess line target member

/-- The use begins with the value of the expression. A name that is called is looked up instead. -/
def Evaluates (target : Node) : Use → Prop
  | call _ => ∀ line name, target ≠ .identifier line name
  | _ => True

/-- The value is of a kind that allows the use. -/
def Suits (s : Store) (v : Value) : Use → Prop
  | call _ => ∃ id, v = .object id ∧ (s.function? id).isSome = true
  | assign .. | destructure .. => ∃ id, v = .object id
  | read member => (∃ id, v = .object id) ∨ (∃ id, v = .array id) ∨
      member = "length" ∧ ∃ text box, v = .primitive (.string text) box

/-- The fault that is meant for a value with the text. -/
def complaint (text : String) : Use → Fault
  | call _ => .uncallableValue text
  | assign member _ => .unsettableMember member text
  | destructure .. => .notDestructurable text
  | read member => .unreadableMember member text

/-- The fault that a value with the text, or without one, ends in. -/
def fault (use : Use) : Except Fault String → Fault
  | .ok text => use.complaint text
  | .error f => f

theorem kind_complaint (use : Use) (text : String) : (use.complaint text).kind = .type := by
  cases use <;> rfl

/-- The value is shown first, and only then is it refused. -/
theorem error_format {α : Type} (use : Use) (s : Store) (limit : Nat) (v : Value) :
    (do .error (use.complaint (← s.format limit v)) : Except Fault α) =
      .error (use.fault (s.format limit v)) := by
  cases s.format limit v <;> rfl

/-- The fault is of the type family exactly if the value has a text. -/
theorem kind_fault {use : Use} {s : Store} (hs : s.Coded) (levels : Nat) (v : Value) :
    (s.Showable (levels + 1) v ∧ (use.fault (s.format (levels + 1) v)).kind = .type) ∨
      s.Unshowable (levels + 1) v (use.fault (s.format (levels + 1) v)) := by
  have htells := Store.tells_format hs levels v
  cases hf : s.format (levels + 1) v with
  | ok text =>
    rw [hf] at htells
    exact .inl ⟨htells, use.kind_complaint text⟩
  | error f =>
    rw [hf] at htells
    exact .inr htells

end Use

namespace Eval

variable {α : Type} {use : Use} {depth limit line : Nat} {target : Node} {scope : ScopeId}
  {m m₁ : Machine} {v : Value}

theorem throw_format (use : Use) (limit : Nat) (v : Value) (m : Machine) :
    (do throw (use.complaint (← query (·.format limit v))) : Eval α) m =
      .error (use.fault (m.store.format limit v)) m := by
  cases hf : m.store.format limit v with
  | ok text => exact bind_ok (Does.query_ok hf)
  | error f => exact bind_error (Does.query_error hf)

theorem callee_of_misuse {args : List Node} (hnode : (Use.call args).Evaluates target)
    (h : value depth target scope m = .ok v m₁) (hv : ¬ (Use.call args).Suits m₁.store v) :
    callee (value depth) limit target scope m =
      .error ((Use.call args).fault (m₁.store.format limit v)) m₁ := by
  have hcallee : callee (value depth) limit target scope =
      (do let v ← value depth target scope; query (·.asFunction limit v)) := by
    cases target with
    | identifier line name => exact absurd rfl (hnode line name)
    | _ => rfl
  have hrefused : m₁.store.asFunction limit v =
      (do .error (.uncallableValue (← m₁.store.format limit v))) := by
    cases v with
    | object id =>
      have hf : ¬ (m₁.store.function? id).isSome = true := fun hf => hv ⟨id, rfl, hf⟩
      exact if_neg hf
    | _ => rfl
  rw [hcallee, bind_ok h]
  refine Does.query_error ?_
  rw [hrefused]
  exact (Use.call args).error_format m₁.store limit v

theorem readMember_of_misuse {s : Store} {member : String} (hv : ¬ (Use.read member).Suits s v) :
    s.readMember limit v member = .error ((Use.read member).fault (s.format limit v)) := by
  cases v with
  | object id => exact absurd (.inl ⟨id, rfl⟩) hv
  | array id => exact absurd (.inr (.inl ⟨id, rfl⟩)) hv
  | primitive p box =>
    cases p with
    | string text =>
      have hmember : member ≠ "length" := fun h => hv (.inr (.inr ⟨h, text, box, rfl⟩))
      exact if_neg hmember
    | int | float | char | bool => exact (Use.read member).error_format s limit _
  | undefined | foreign => exact (Use.read member).error_format s limit _

/-- A use that the value does not allow fails right after the value is there. -/
theorem value_of_misuse (hnode : use.Evaluates target)
    (h : value depth target scope m = .ok v m₁) (hv : ¬ use.Suits m₁.store v) :
    value (depth + 1) (use.node line target) scope m =
      .error (use.fault (m₁.store.format depth v)) m₁ := by
  cases use with
  | call args =>
    rw [Use.node, value, valueOf, call]
    exact bind_error (callee_of_misuse hnode h hv)
  | assign member expression =>
    rw [Use.node, value, valueOf, reassignment, assignMember, bind_ok h]
    cases v with
    | object id => exact absurd ⟨id, rfl⟩ hv
    | _ => exact throw_format (.assign member expression) depth _ m₁
  | destructure names isConst =>
    rw [Use.node, value, valueOf, destructuring, bind_ok h]
    cases v with
    | object id => exact absurd ⟨id, rfl⟩ hv
    | _ => exact throw_format (.destructure names isConst) depth _ m₁
  | read member =>
    rw [Use.node, value, valueOf, bind_ok h]
    exact Does.query_error (readMember_of_misuse hv)

end Eval

namespace Session

open Eval

/-- In every store that a session comes to, and in every one that its next step passes through, all
functions have code. In a machine with such a store, an expression that has given a value and makes
a use of it that its kind does not allow fails, without any further effect: with a fault of the type
family if the value has a text with the levels of nesting that are left, and with the fault of the
missing text, which is never of that family, if it has none. -/
theorem misuse_reported_with_text (tracing : Bool) (history : List (Nat × Step)) :
    let before := play tracing history
    (before.machine.store.Coded ∧
      ∀ limit step, Changes.Within permit Store.Coded before.machine.store
        (before.perform limit step).2.machine.store) ∧
    ∀ (use : Use) depth line target scope m v m₁, use.Evaluates target →
      value depth target scope m = .ok v m₁ → m₁.store.Coded → ¬ use.Suits m₁.store v →
      ∃ fault, value (depth + 1) (use.node line target) scope m = .error fault m₁ ∧
        (m₁.store.Showable depth v ∧ fault.kind = .type ∨
          m₁.store.Unshowable depth v fault ∧ fault.kind ≠ .type) := by
  obtain ⟨hsound, -⟩ := play_spec tracing history
  have hcoded := hsound.store.coded trivial
  refine ⟨⟨hcoded, fun limit step => ?_⟩, ?_⟩
  · exact ((hsound.perform limit step).1.within (fun hc => hc.coded trivial) hcoded).1
  · intro use depth line target scope m v m₁ hnode h hs hv
    refine ⟨_, value_of_misuse hnode h hv, ?_⟩
    cases depth with
    | zero => cases h
    | succ levels =>
      rcases use.kind_fault hs levels v with hshown | hmissing
      · exact .inl hshown
      · exact .inr ⟨hmissing, hmissing.kind_ne_type⟩

/-- An array with a text is refused as the target of an assignment to a member, and shown. -/
theorem misuse_of_shown_array :
    let m := (play false [(12, .execute "const a = [true];")]).machine
    let use := Use.assign "x" (.integer 1 1)
    ∃ v, value 3 (.identifier 1 "a") mainScope m = .ok v m ∧ ¬ use.Suits m.store v ∧
      m.store.Showable 3 v ∧ value 4 (use.node 1 (.identifier 1 "a")) mainScope m =
        .error (.unsettableMember "x" "[true]") m := by
  intro m use
  have hstore : (m.store.nameValue mainScope "a", m.store.format 3 (.array ⟨0⟩)) =
      (.ok (.array ⟨0⟩), .ok "[true]") := by
    dsimp only [m]
    cbv
  obtain ⟨hname, hformat⟩ := Prod.mk.inj hstore
  have hvalue : value 3 (.identifier 1 "a") mainScope m = .ok (.array ⟨0⟩) m := by
    rw [value_identifier]
    exact Does.query_ok hname
  have hnode : use.Evaluates (.identifier 1 "a") := trivial
  have hunsuited : ¬ use.Suits m.store (.array ⟨0⟩) := by simp [use, Use.Suits]
  obtain ⟨⟨hcoded, -⟩, hmisuse⟩ :=
    misuse_reported_with_text false [(12, .execute "const a = [true];")]
  obtain ⟨fault, hfault, hkind⟩ := hmisuse use 3 1 (.identifier 1 "a") mainScope m (.array ⟨0⟩) m
    hnode hvalue hcoded hunsuited
  have htext : fault = .unsettableMember "x" "[true]" := by
    rw [value_of_misuse hnode hvalue hunsuited, hformat] at hfault
    cases hfault
    rfl
  subst htext
  rcases hkind with ⟨hshown, -⟩ | ⟨-, hother⟩
  · exact ⟨_, hvalue, hunsuited, hshown, hfault⟩
  · exact absurd rfl hother

/-- An array that contains itself is no target of such an assignment either, but no depth of nesting
gives it a text, so the fault is another one. -/
theorem misuse_of_endless_array :
    let m := (play false [(12, .execute "const a = []; std::push(a, a);")]).machine
    let use := Use.assign "x" (.integer 1 1)
    ∃ v, ¬ use.Suits m.store v ∧ ∀ depth,
      value (depth + 1) (.identifier 1 "a") mainScope m = .ok v m ∧
        value (depth + 2) (use.node 1 (.identifier 1 "a")) mainScope m = .error .overflow m := by
  intro m use
  have hstore : (m.store.nameValue mainScope "a", m.store.contents (.array ⟨0⟩)) =
      (.ok (.array ⟨0⟩), [.array ⟨0⟩]) := by
    dsimp only [m]
    cbv
  obtain ⟨hname, hcontents⟩ := Prod.mk.inj hstore
  have hcoded : m.store.Coded := (play_spec false _).1.store.coded trivial
  have hnode : use.Evaluates (.identifier 1 "a") := trivial
  have hunsuited : ¬ use.Suits m.store (.array ⟨0⟩) := by simp [use, Use.Suits]
  -- the array is all that there is in it, for ever
  have hendless : m.store.Endless (.array ⟨0⟩) :=
    ⟨fun _ => .array ⟨0⟩, rfl, fun _ => by simp [hcontents]⟩
  have hlegible : m.store.Legible (.array ⟨0⟩) := by
    intro w hw
    have hsame : w = .array ⟨0⟩ := by
      induction hw with
      | refl => rfl
      | tail _ hstep ih =>
        rw [ih, hcontents] at hstep
        exact List.mem_singleton.mp hstep
    rw [hsame]
    trivial
  refine ⟨_, hunsuited, fun depth => ?_⟩
  have hvalue : value (depth + 1) (.identifier 1 "a") mainScope m = .ok (.array ⟨0⟩) m := by
    rw [value_identifier]
    exact Does.query_ok hname
  have hformat := Store.format_eq_overflow hcoded (hendless.hasPath (depth + 1)) hlegible
  refine ⟨hvalue, ?_⟩
  rw [value_of_misuse hnode hvalue hunsuited, hformat]
  rfl

end Session

end Scriptlet
