import Scriptlet.Host
import Scriptlet.Proofs.Grammar.Fits
import Scriptlet.Proofs.Machine.Run
import Scriptlet.Session

/-!
# What a session goes through

A host drives a session step by step: it loads and runs programs, calls functions, has expressions
evaluated and instructions executed, and builds values to pass as arguments. It holds on to every
value that it builds or gets, and names them by their places. A step that fails leaves behind what
it did, and the next step goes on from there.

* `Step`, `State`, `State.perform` : a step and what it does.
* `play` : the state after any sequence of steps on a new session, each with a nesting depth of its
  own.
* `play_spec` : what holds after every such sequence.
-/

namespace Scriptlet.Session

open Eval

/-! ## Histories -/

/-- A property of an object that a host builds; its value is one of those held. -/
structure Field where
  name : String
  place : Nat
  isStatic : Bool
  visibility : String
  isWriteable : Bool

/-- A step of a host. Values are named by their places among those held. -/
inductive Step where
  | load (source : String)
  | run (source : String) (argv : List String)
  | call (name : String) (args : List Nat)
  | expression (source : String)
  | execute (source : String)
  | primitive (p : Primitive)
  | foreign (content : Payload)
  | array (items : List Nat)
  | object (fields : List Field) (prototype : Option Nat)
  | native (name : String) (arity : Option Nat) (action : Native)

/-- A session and the values that its host holds. -/
structure State where
  machine : Machine
  held : List Value

/-- The value held at a place, undefined if there is none. -/
def pick (held : List Value) (place : Nat) : Value := held[place]?.getD .undefined

/-- The property that a field describes. -/
def Field.property (held : List Value) (f : Field) : String × Property :=
  (f.name, ⟨pick held f.place, f.isStatic, f.visibility, f.isWriteable⟩)

/-- The object that a value is. -/
def objectId? : Value → Option ObjectId
  | .object id => some id
  | _ => none

/-- What a step does to the machine, and the value that the host gets from it. -/
def act (limit : Nat) (held : List Value) : Step → Eval (Option Value)
  | .load source => do
    load limit source
    return none
  | .run source argv => do
    run limit source argv
    return none
  | .call name args => do
    let v ← call limit name (args.map (pick held))
    return some (← Host.keep v)
  | .expression source => do
    let (v, _) ← expression limit source
    return some (← Host.keep v)
  | .execute source => do
    execute limit source
    return none
  | .primitive p => return some (← Host.box p)
  | .foreign content => return some (← Host.foreign content)
  | .array items => return some (← newArray (items.map (pick held)))
  | .object fields prototype =>
    return some (← Host.object (fields.map (·.property held))
      (prototype.bind fun place => objectId? (pick held place)))
  | .native name arity action => return some (← Host.native name arity action)

/-- Takes a step: the fault that it ends in, if it does, and the state after it. -/
def State.perform (st : State) (limit : Nat) (step : Step) : Option Fault × State :=
  match act limit st.held step st.machine with
  | .ok v m => (none, ⟨m, st.held ++ v.toList⟩)
  | .error f m => (some f, ⟨m, st.held⟩)

/-- The state after a sequence of steps on a new session. Each step has its own nesting depth. -/
def play (tracing : Bool) (history : List (Nat × Step)) : State :=
  history.foldl (fun st step => (st.perform step.1 step.2).2) ⟨start tracing, []⟩

theorem play_append (tracing : Bool) (history future : List (Nat × Step)) :
    play tracing (history ++ future) =
      future.foldl (fun st step => (st.perform step.1 step.2).2) (play tracing history) :=
  List.foldl_append

/-! ## What a session may do -/

/-- The programs of a session declare in the main module and in scopes of their own; only the
arguments of a run come and go in the standard module, and only its own scope is emptied. -/
def permit : Permit where
  base := 3
  declares id name := id = mainScope ∨ id = standardScope ∧ name = "args"
  drops id name := 3 ≤ id.index ∨ id = standardScope ∧ name = "args"
  strict := True

/-- What the steps of a session ask of a permit. A run asks for more: it has to make room for its
arguments (`Serves`). -/
structure Hosts (π : Permit) : Prop where
  grown : 3 ≤ π.base
  opens : π.Opens mainScope

/-- What a run asks of a permit, up to the moment when it empties the scope of its entry point. -/
structure Serves (π : Permit) : Prop extends Hosts π where
  args : π.Declares standardScope "args"
  rebinds : π.drops standardScope "args"

theorem serves_permit : Serves permit where
  grown := Nat.le_refl 3
  opens _ := Or.inr (Or.inl rfl)
  args := Or.inr (Or.inr ⟨rfl, rfl⟩)
  rebinds := Or.inr ⟨rfl, rfl⟩

variable {π : Permit} {s : Store} {m : Machine}

theorem Hosts.has_mainScope (hπ : Hosts π) (hs : s.Sound π) : s.Has (.scope mainScope) :=
  Nat.le_trans hπ.grown hs.grown

theorem Hosts.has_standardScope (hπ : Hosts π) (hs : s.Sound π) : s.Has (.scope standardScope) :=
  Nat.lt_of_lt_of_le (by decide) (Nat.le_trans hπ.grown hs.grown)

/-- What is wrong with a text is no fault of the tree that it stands for. -/
theorem admits_of_ofReading {f : Fault} (h : f.OfReading) : π.Admits f := by
  intro _
  cases f <;> simp [Fault.OfReading, Fault.kind] at h <;> rfl

/-! ## Reading and evaluating in turn -/

theorem interleave_does {item : Reader Node} {role : Role} {act : Node → Eval Unit}
    (hi : Grammar.Reads item role)
    (ha : ∀ node m, node.Fits True role → Does π m (act node) fun _ _ => True) :
    ∀ (bound : List Token) (stream : Stream) (m : Machine), stream.Sound →
      Does π m (interleave item act bound stream) fun _ _ => True
  | bound, stream, m, hs => by
    unfold interleave
    have hfinished := Reader.finished_yields stream hs
    cases hf : Reader.finished stream with
    | error f rest => exact Does.throw (admits_of_ofReading (hfinished.of_error hf).2)
    | ok ended rest =>
      have hrest : rest.Sound := hs.before (hfinished.of_ok hf).1
      cases ended with
      | true => exact Does.pure trivial
      | false =>
        have hitem := hi rest hrest
        dsimp only
        cases hr : item rest with
        | error f after => exact Does.throw (admits_of_ofReading (hitem.of_error hr).2)
        | ok node after =>
          obtain ⟨hb, hfits⟩ := hitem.of_ok hr
          refine Does.bind (ha node m hfits) ?_
          intro _ m₁ _ _
          cases bound with
          | nil => exact Does.throw fun _ => rfl
          | cons t bound => exact interleave_does hi ha bound after m₁ (hrest.before hb)

theorem readAnd_does {item : Reader Node} {role : Role} {act : Node → Eval Unit}
    (hi : Grammar.Reads item role)
    (ha : ∀ node m, node.Fits True role → Does π m (act node) fun _ _ => True)
    (source : String) : Does π m (readAnd item act source) fun _ _ => True :=
  interleave_does hi ha _ _ m (Stream.sound_ofSource source)

theorem register_does (hπ : Hosts π) {node : Node} (limit : Nat)
    (hf : node.Fits True .declaration) :
    Does π m (register limit node) fun e s => s.Has e.ref := by
  refine Does.of_sound fun hs => ?_
  have there := hπ.has_mainScope hs
  refine Does.bind ((evaluatorsDo π limit).entity node mainScope m there (fun _ => hf)
    hπ.opens) ?_
  intro e m₁ h₁ he
  refine Does.bind (declare_does (h₁.has there) he (hπ.opens _)) ?_
  intro _ m₂ h₂ _
  exact Does.pure (h₂.has he)

theorem load_does (hπ : Hosts π) (limit : Nat) (source : String) :
    Does π m (load limit source) fun _ _ => True := by
  refine readAnd_does (Grammar.root_yields limit) ?_ source
  intro node m hf
  refine Does.bind (register_does hπ limit hf) ?_
  intro _ _ _ _
  exact Does.pure trivial

/-! ## Running -/

/-- The function that a program begins with was there before, with its scope. -/
theorem entryPoint_answers (hs : s.Sound π) :
    Answers π (entryPoint s) fun main =>
      s.Has (.scope main.2.scope) ∧ (π.strict → (Callable.closure main.2).Fits) := by
  unfold entryPoint
  split
  · split
    · next hf =>
      split
      · exact ⟨hs.closed.closure hf rfl, fun hπ => hs.coded hπ _ _ hf⟩
      · exact fun _ => rfl
    · exact fun _ => rfl
  · exact fun _ => rfl

theorem bindArgs_does (hπ : Serves π) (argv : List String) :
    Does π m (bindArgs argv) fun _ _ => True := by
  refine Does.of_sound fun hs => ?_
  have there := hπ.has_standardScope hs
  refine Does.bind (Does.change (P := fun _ _ => True) (fun _ => .drop _ _ ?_) trivial) ?_
  · intro entry _ hdropped
    have hname : entry.1 = "args" := by simpa using hdropped
    rw [hname]
    exact hπ.rebinds
  intro _ m₁ h₁ _
  refine Does.bind (newArray_does ?_) ?_
  · intro v hv
    obtain ⟨text, -, rfl⟩ := List.mem_map.mp hv
    exact Store.holds_primitive _ _
  intro args m₂ h₂ hargs
  refine Does.bind (newVariable_does hargs) ?_
  intro e m₃ h₃ ⟨he, hname⟩
  refine declare_does (h₃.has (h₂.has (h₁.has there))) he ?_
  rw [hname]
  exact hπ.args

/-- What comes before the entry point in a run: the declarations, and the arguments are bound. -/
def prepare (limit : Nat) (source : String) (argv : List String) : Eval (String × Closure) := do
  readAnd (Grammar.root limit)
    (fun node => do
      let e ← register limit node
      note (.registered (← ask (·.entityName e)) mainModule.name))
    source
  let main ← query entryPoint
  bindArgs argv
  return main

/-- The instructions of the entry point in a scope of their own; gives the scope. -/
def body (depth : Nat) (name : String) (c : Closure) : Eval ScopeId := do
  let scope ← newScope name (some c.scope)
  instructions (instruction depth) scope c.body
  return scope

theorem run_eq (limit : Nat) (source : String) (argv : List String) :
    run limit source argv =
      prepare limit source argv >>= fun main => enter limit main.1 main.2 := by
  simp only [run, prepare, bind_assoc, pure_bind]

theorem enter_eq (depth : Nat) (name : String) (c : Closure) :
    enter (depth + 1) name c = body depth name c >>= fun scope => change (·.clean scope) := by
  simp only [enter, body, bind_assoc, pure_bind]

theorem prepare_does (hπ : Serves π) (limit : Nat) (source : String) (argv : List String) :
    Does π m (prepare limit source argv) fun main s =>
      s.Has (.scope main.2.scope) ∧ (π.strict → (Callable.closure main.2).Fits) := by
  refine Does.bind (readAnd_does (Grammar.root_yields limit) ?_ source) ?_
  · intro node m hf
    refine Does.bind (register_does hπ.toHosts limit hf) ?_
    intro e _ _ _
    exact Does.ask_bind (Does.note _)
  intro _ m₁ _ _
  refine Does.query_bind entryPoint_answers ?_
  intro main _ ⟨around, code⟩
  refine Does.bind (bindArgs_does hπ argv) ?_
  intro _ m₂ h₂ _
  exact Does.pure ⟨h₂.has around, code⟩

/-- The scope of the entry point is a new one. -/
theorem body_does (depth : Nat) (name : String) {c : Closure}
    (around : m.store.Has (.scope c.scope)) (code : π.strict → (Callable.closure c).Fits) :
    Does π m (body depth name c) fun scope _ => π.base ≤ scope.index := by
  refine Does.bind (newScope_does ?_) ?_
  · intro p hp
    cases hp
    exact around
  intro scope m₁ _ ⟨there, fresh⟩
  refine Does.bind (instructions_does (evaluatorsDo π depth).instruction
    (Permit.opens fresh) c.body m₁ there fun hπ => (code hπ).2.1) ?_
  intro _ m₂ _ _
  exact Does.pure fresh

theorem enter_does (hd : ∀ id name, π.base ≤ id.index → π.drops id name) (limit : Nat)
    (name : String) {c : Closure} (around : m.store.Has (.scope c.scope))
    (code : π.strict → (Callable.closure c).Fits) :
    Does π m (enter limit name c) fun _ _ => True := by
  cases limit with
  | zero => exact Does.throw fun _ => rfl
  | succ depth =>
    rw [enter_eq]
    refine Does.bind (body_does depth name around code) ?_
    intro scope m₁ _ fresh
    refine Does.change (fun _ => ?_) trivial
    have hclean : m₁.store.clean scope =
        m₁.store.modifyEntries scope (·.filter fun _ => false) := by simp [Store.clean]
    rw [hclean]
    exact .drop scope _ fun _ _ _ => hd _ _ fresh

theorem run_does (hπ : Serves π) (hd : ∀ id name, π.base ≤ id.index → π.drops id name)
    (limit : Nat) (source : String) (argv : List String) :
    Does π m (run limit source argv) fun _ _ => True := by
  rw [run_eq]
  refine Does.bind (prepare_does hπ limit source argv) ?_
  intro main m₁ _ ⟨around, code⟩
  exact enter_does hd limit main.1 around code

/-! ## Single steps -/

theorem call_does (limit : Nat) (name : String) {args : List Value}
    (held : ∀ v ∈ args, m.store.Holds v) :
    Does π m (call limit name args) fun v s => s.Holds v := by
  refine Does.bind (resolve_does mainScope name) ?_
  intro e m₁ h₁ he
  refine Does.query_bind (fun hs => Store.entityValue_answers hs.closed he name) ?_
  intro v _ hv
  cases v with
  | object id =>
    refine Does.ask_bind ?_
    split
    · exact (evaluatorsDo π limit).invoke id args m₁ ((Store.holds_object id).mp hv)
        fun v hv => h₁.holds (held v hv)
    · exact Does.throw fun _ => rfl
  | _ => exact Does.throw fun _ => rfl

theorem expression_does (hπ : Hosts π) (limit : Nat) (source : String) :
    Does π m (expression limit source) fun result s => s.Holds result.1 := by
  refine Does.of_sound fun hs => ?_
  have hread := (Grammar.readersFit limit).expression _ (Stream.sound_ofSource source)
  unfold expression
  cases hr : Grammar.expression limit (Stream.ofSource source) with
  | error f rest => exact Does.throw (admits_of_ofReading (hread.of_error hr).2)
  | ok node rest =>
    have hfits := (hread.of_ok hr).2
    exact Does.map ((evaluatorsDo π limit).value _ mainScope m
      (hπ.has_mainScope hs) (.of_expression (fun _ => hfits) (Or.inr hfits))) fun _ _ hv => hv

theorem execute_does (hπ : Hosts π) (limit : Nat) (source : String) :
    Does π m (execute limit source) fun _ _ => True := by
  refine readAnd_does (Grammar.readersFit limit).instruction ?_ source
  intro node m hf
  refine Does.of_sound fun hs => ?_
  exact (evaluatorsDo π limit).instruction node mainScope m (hπ.has_mainScope hs) (fun _ => hf)
    hπ.opens

/-! ## Values of the host -/

theorem box_does (p : Primitive) : Does π m (Host.box p) fun v s => s.Holds v :=
  Does.map (Does.add (P := fun _ _ => True) (fun _ => .addBox) trivial)
    fun _ _ _ => Store.holds_primitive _ _

theorem keep_does {v : Value} (hv : m.store.Holds v) :
    Does π m (Host.keep v) fun v s => s.Holds v := by
  unfold Host.keep
  split
  · exact box_does _
  · exact Does.pure hv

theorem holds_pick {held : List Value} (h : ∀ v ∈ held, s.Holds v) (place : Nat) :
    s.Holds (pick held place) := by
  unfold pick
  cases hp : held[place]? with
  | none => exact Store.holds_undefined
  | some v => exact h v (List.mem_of_getElem? hp)

theorem object_does {properties : List (String × Property)} {prototype : Option ObjectId}
    (above : ∀ p ∈ prototype, m.store.Has (.object p))
    (held : ∀ entry ∈ properties, m.store.Holds entry.2.value) :
    Does π m (Host.object properties prototype) fun v s => s.Holds v := by
  refine newObject_does above ?_
  -- the table is built by writing the properties one by one
  have written : ∀ (rest : List (String × Property)) (t : Table Property),
      (∀ entry ∈ rest, m.store.Holds entry.2.value) → (∀ entry ∈ t, m.store.Holds entry.2.value) →
      ∀ entry ∈ rest.foldl (fun t entry => t.put entry.1 entry.2) t,
        m.store.Holds entry.2.value := by
    intro rest
    induction rest with
    | nil => exact fun _ _ ht => ht
    | cons first rest ih =>
      intro t hrest ht
      refine ih _ (fun entry he => hrest entry (List.mem_cons_of_mem _ he)) ?_
      intro entry he
      rcases Table.mem_put he with he | rfl
      · exact ht entry he
      · exact hrest first List.mem_cons_self
  exact written properties [] held (by simp)

/-! ## Any step -/

/-- What a step does, if a run does what it may. -/
theorem act_does (hπ : Hosts π) (limit : Nat) {held : List Value} (step : Step)
    (hrun : ∀ source argv, step = .run source argv →
      Does π m (run limit source argv) fun _ _ => True)
    (h : ∀ v ∈ held, m.store.Holds v) :
    Does π m (act limit held step) fun v s => ∀ w ∈ v, s.Holds w := by
  have picked : ∀ places : List Nat, ∀ v ∈ places.map (pick held), m.store.Holds v := by
    intro places v hv
    obtain ⟨place, -, rfl⟩ := List.mem_map.mp hv
    exact holds_pick h place
  have kept : ∀ {m : Machine} {v : Value}, m.store.Holds v →
      Does π m (do return some (← Host.keep v)) fun v s => ∀ w ∈ v, s.Holds w :=
    fun hv => Does.map (keep_does hv) (by simp)
  cases step with
  | load source => exact Does.bind (load_does hπ limit source) fun _ _ _ _ => Does.pure (by simp)
  | run source argv =>
    exact Does.bind (hrun source argv rfl) fun _ _ _ _ => Does.pure (by simp)
  | call name args =>
    exact Does.bind (call_does limit name (picked args)) fun _ _ _ hv => kept hv
  | expression source =>
    exact Does.bind (expression_does hπ limit source) fun _ _ _ hv => kept hv
  | execute source =>
    exact Does.bind (execute_does hπ limit source) fun _ _ _ _ => Does.pure (by simp)
  | primitive p => exact Does.map (box_does p) (by simp)
  | foreign content =>
    refine Does.map (P := fun v s => s.Holds v) (Does.map (Does.add (P := fun _ _ => True)
      (fun _ => .addBox) trivial) ?_) (by simp)
    exact fun _ _ _ => Store.holds_foreign _ _
  | array items => exact Does.map (newArray_does (picked items)) (by simp)
  | object fields prototype =>
    refine Does.map (object_does ?_ ?_) (by simp)
    · intro p hp
      obtain ⟨place, -, hid⟩ := Option.bind_eq_some_iff.mp hp
      have held := holds_pick h place
      unfold objectId? at hid
      split at hid
      · next heq =>
        cases hid
        rw [heq] at held
        exact (Store.holds_object p).mp held
      · cases hid
    · intro entry he
      obtain ⟨field, -, rfl⟩ := List.mem_map.mp he
      exact holds_pick h field.place
  | native name arity action =>
    refine Does.map (P := fun v s => s.Holds v) (Does.map (newFunction_does ?_ fun _ => trivial) ?_)
      (by simp)
    · intro r hr
      cases hr
    · exact fun id s hf => (Store.holds_object id).mpr hf.object_of_function

/-! ## Any sequence of steps -/

/-- What holds between two steps. -/
structure State.Sound (st : State) : Prop where
  store : st.machine.store.Sound permit
  held : ∀ v ∈ st.held, st.machine.store.Holds v

theorem State.Sound.act_does {st : State} (h : st.Sound) (limit : Nat) (step : Step) :
    Does permit st.machine (act limit st.held step) fun v s => ∀ w ∈ v, s.Holds w :=
  Session.act_does serves_permit.toHosts limit step
    (fun source argv _ => run_does serves_permit (fun _ _ => Or.inl) limit source argv) h.held

/-- A step changes the store as permitted and fails with a fault that may occur. -/
theorem State.Sound.perform {st : State} (h : st.Sound) (limit : Nat) (step : Step) :
    Changes permit st.machine.store (st.perform limit step).2.machine.store ∧
      ∀ f ∈ (st.perform limit step).1, permit.Admits f := by
  have hact := h.act_does limit step h.store
  unfold State.perform
  cases hr : act limit st.held step st.machine with
  | ok v m => exact ⟨(hact.of_ok hr).1, by simp⟩
  | error f m =>
    refine ⟨(hact.of_error hr).1, ?_⟩
    intro g hg
    cases hg
    exact (hact.of_error hr).2

/-- The state after a step is as sound as the one before. -/
theorem State.Sound.after {st : State} (h : st.Sound) (limit : Nat) (step : Step) :
    (st.perform limit step).2.Sound := by
  have hchanges := (h.perform limit step).1
  refine ⟨hchanges.sound h.store, ?_⟩
  have hact := h.act_does limit step h.store
  unfold State.perform at hchanges ⊢
  cases hr : act limit st.held step st.machine with
  | ok v m =>
    rw [hr] at hchanges
    intro w hw
    rcases List.mem_append.mp hw with hw | hw
    · exact hchanges.holds (h.held w hw)
    · exact (hact.of_ok hr).2 w (Option.mem_toList.mp hw)
  | error f m =>
    rw [hr] at hchanges
    exact fun w hw => hchanges.holds (h.held w hw)

/-- The objects of a new session are natives, without properties and without prototypes. -/
theorem native_of_objectAt? {id : ObjectId} {o : Object} (h : firstStore.objectAt? id = some o) :
    ∃ name action arity, o = ⟨none, [], some ⟨name, true, .native action arity⟩⟩ := by
  change ((natives.map fun f => (⟨none, [], some f⟩ : Object)).toArray)[id.index]? = some o at h
  obtain ⟨f, hf, rfl⟩ := List.mem_map.mp (List.mem_toArray.mp (Array.mem_of_getElem? h))
  obtain ⟨⟨name, action, arity⟩, -, rfl⟩ := List.mem_map.mp hf
  exact ⟨name, action, arity, rfl⟩

theorem coded_firstStore : firstStore.Coded := by
  intro id f hf
  obtain ⟨o, ho, hof⟩ := Option.bind_eq_some_iff.mp hf
  obtain ⟨name, action, arity, rfl⟩ := native_of_objectAt? ho
  cases hof
  trivial

theorem closed_firstStore : firstStore.Closed := by
  intro r
  cases r with
  | scope id =>
    obtain ⟨i⟩ := id
    match i with
    | 0 => decide
    | 1 => decide
    | 2 => decide
    | i + 3 =>
      intro r' hr
      cases hr
  | var id =>
    intro r' hr
    cases hr
  | array id =>
    intro r' hr
    simp [Store.refsAt, Store.elements, firstStore] at hr
  | object id | function id =>
    intro r' hr
    rw [Store.refsAt] at hr
    cases ho : firstStore.objectAt? id with
    | none =>
      rw [ho] at hr
      cases hr
    | some o =>
      obtain ⟨name, action, arity, rfl⟩ := native_of_objectAt? ho
      rw [ho] at hr
      cases hr

theorem sound_start (tracing : Bool) : State.Sound ⟨start tracing, []⟩ where
  store := ⟨closed_firstStore, fun _ => coded_firstStore, Nat.le_refl 3⟩
  held := by simp

/-- After any number of steps the store and the values held are sound, and the store has come out of
the one before by permitted steps. -/
theorem State.Sound.steps : ∀ (steps : List (Nat × Step)) {st : State}, st.Sound →
    (steps.foldl (fun st step => (st.perform step.1 step.2).2) st).Sound ∧
      Changes permit st.machine.store
        (steps.foldl (fun st step => (st.perform step.1 step.2).2) st).machine.store
  | [], st, h => ⟨h, refl st.machine.store⟩
  | (limit, step) :: steps, st, h => by
    obtain ⟨hsound, hchanges⟩ := State.Sound.steps steps (h.after limit step)
    exact ⟨hsound, IsTrans.trans _ _ _ (h.perform limit step).1 hchanges⟩

/-- What holds after any sequence of steps on a new session. -/
theorem play_spec (tracing : Bool) (history : List (Nat × Step)) :
    (play tracing history).Sound ∧
      Changes permit firstStore (play tracing history).machine.store :=
  State.Sound.steps history (sound_start tracing)

end Scriptlet.Session
