import Scriptlet.Proofs.Data.Evaluation
import Scriptlet.Proofs.Data.Reading
import Scriptlet.Proofs.Data.Rendering
import Scriptlet.Proofs.Data.Scanning

/-!
# Rendered data reads back

An array or object of readable data is rendered as a text that is a literal of the language: it is
read as a whole, and evaluating what was read, wherever, gives a value that holds the same data
(`Data.rendered_data_reads_back`).

The four steps are those of the modules before: the value is rendered as the text of its data, the
text scans to the pieces, the pieces are read as the tree, and the tree evaluates to the data.
-/

namespace Scriptlet.Data

open Filter Grammar

/-- The text of readable data is read as its tree, and nothing is left of the text. -/
theorem Readable.eventually_reads_text {d : Data} (h : d.Readable) (depth : Nat) :
    ∀ᶠ limit in atTop, ∃ node rest,
      expression limit (Stream.ofSource (d.text depth)) = .ok node rest ∧
        rest.pending = [] ∧ rest.failure = none ∧ Like d.node node := by
  filter_upwards [h.eventually_takes] with limit htakes
  exact readsWhole_of_takes (h.scans depth) htakes

/-- An array or object that holds readable data is rendered as one and the same text at every limit
that is large enough. At every such limit the text is read to its end as an expression, and the
expression evaluates, in any scope of any machine, to a value that holds the same data. -/
theorem rendered_data_reads_back {s : Store} {v : Value} {d : Data} (shown : s.Shows v d)
    (readable : d.Readable) (composite : (∃ id, v = .array id) ∨ ∃ id, v = .object id) :
    ∃ text least, ∀ limit, least ≤ limit → s.format limit v = .ok text ∧
      ∃ node rest, expression limit (Stream.ofSource text) = .ok node rest ∧
        rest.pending = [] ∧ rest.failure = none ∧
        ∀ depth, least ≤ depth → ∀ scope m, ∃ w m',
          Eval.value depth node scope m = .ok w m' ∧ m'.store.Shows w d := by
  have hformat : ∀ limit, s.format limit v = s.nested limit 0 v := by
    intro limit
    rcases composite with ⟨id, rfl⟩ | ⟨id, rfl⟩
    · rfl
    · rfl
  obtain ⟨least, hleast⟩ := eventually_atTop.mp
    ((readable.eventually_nested s).and ((readable.eventually_reads_text 0).and
      readable.eventually_builds))
  refine ⟨d.text 0, least, ?_⟩
  intro limit hlimit
  obtain ⟨hnested, ⟨node, rest, hread, hpending, hfailure, hlike⟩, -⟩ := hleast limit hlimit
  refine ⟨?_, node, rest, hread, hpending, hfailure, ?_⟩
  · rw [hformat, hnested v shown 0]
  · intro depth hdepth scope m
    have hbuilds := (hleast depth hdepth).2.2.of_like readable hlike
    obtain ⟨w, m', hw, -, hshown⟩ := hbuilds scope m
    exact ⟨w, m', hw, hshown⟩

/-- An object on several lines, with keywords among its keys, that holds an array with an object on
one line. -/
def sample : Data :=
  .object
    [("in", .array [.primitive (.int (-12)), .undefined, .object [("$", .array [])]]),
      ("true", .primitive (.char '"')),
      ("text", .primitive (.string "a \"quote\" and a \\"))]

/-- A store with that object. -/
def sampleStore : Store :=
  { Store.empty with
    arrays := #[#[.int (-12), .undefined, .object ⟨1⟩], #[]]
    objects :=
      #[⟨none, [("in", { value := .array ⟨0⟩ }), ("true", { value := .char '"' }),
          ("text", { value := .string "a \"quote\" and a \\" })], none⟩,
        ⟨none, [("$", { value := .array ⟨1⟩ })], none⟩] }

/-- The object is read back from its text. -/
theorem sample_reads_back :
    sampleStore.Shows (.object ⟨0⟩) sample ∧ sample.Readable ∧
      ∃ text least, ∀ limit, least ≤ limit → sampleStore.format limit (.object ⟨0⟩) = .ok text ∧
        ∃ node rest, expression limit (Stream.ofSource text) = .ok node rest ∧
          rest.pending = [] ∧ rest.failure = none ∧
          ∀ depth, least ≤ depth → ∀ scope m, ∃ w m',
            Eval.value depth node scope m = .ok w m' ∧ m'.store.Shows w sample := by
  have inner : sampleStore.Shows (.object ⟨1⟩) (.object [("$", .array [])]) :=
    .object rfl rfl (.cons (.intro "$" (.array rfl .nil)) .nil)
  have row : sampleStore.Shows (.array ⟨0⟩)
      (.array [.primitive (.int (-12)), .undefined, .object [("$", .array [])]]) :=
    .array rfl (.cons (.primitive _ _) (.cons .undefined (.cons inner .nil)))
  have shown : sampleStore.Shows (.object ⟨0⟩) sample :=
    .object rfl rfl (.cons (.intro "in" row) (.cons (.intro "true" (.primitive _ _))
      (.cons (.intro "text" (.primitive _ _)) .nil)))
  have number : (Primitive.int (-12)).Readable := by
    unfold Primitive.Readable Number.Integer.digitLimit
    decide
  have items : ∀ d ∈ [.primitive (.int (-12)), .undefined, .object [("$", .array [])]],
      Data.Readable d := by
    simp only [List.forall_mem_cons]
    refine ⟨.primitive number, .undefined, .object (by decide) (by decide) ?_, nofun⟩
    exact List.forall_mem_singleton.mpr (.array nofun)
  have readable : sample.Readable := by
    refine .object (by decide) (by decide) ?_
    simp only [List.forall_mem_cons]
    exact ⟨.array items, .primitive (by decide), .primitive (by decide), nofun⟩
  exact ⟨shown, readable, rendered_data_reads_back shown readable (Or.inr ⟨_, rfl⟩)⟩

end Scriptlet.Data
