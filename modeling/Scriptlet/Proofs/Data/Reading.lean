import Scriptlet.Proofs.Data.Shape
import Scriptlet.Proofs.Grammar.Roundtrip

/-!
# The tree of rendered data

The pieces of readable data are read as its tree, at every depth from some depth on
(`Data.Readable.eventually_takes`). Unlike an expression that is printed to be read again, data has
no parentheses around it, and its keys are words, among them keywords.
-/

namespace Scriptlet

open Filter Grammar Reader

/-- The literal of a readable primitive fits. -/
theorem Primitive.Readable.fits {p : Primitive} (h : p.Readable) :
    Node.Fits False .expression p.literal := by
  cases p with
  | int n => exact .integer (Number.Integer.isSome_text?_iff.mpr h)
  | float x => exact h.elim
  | string s => exact .string
  | char c => exact .char
  | bool b => exact .bool

namespace Data

/-- A closing bracket is not the first piece of data. -/
theorem Readable.head {d : Data} (h : d.Readable) :
    ∃ q qs, d.pieces = q :: qs ∧ (Token.Pattern.punct "]").admits q = false := by
  cases h with
  | undefined => exact ⟨_, _, rfl, rfl⟩
  | primitive own =>
    obtain ⟨q, qs, hq, ho⟩ := Node.opens_spell own.fits
    exact ⟨q, qs, hq, Token.Pattern.admits_eq_false ho rfl⟩
  | array parts => exact ⟨_, _, pieces_array _, rfl⟩
  | object words distinct parts => exact ⟨_, _, pieces_object _, rfl⟩

/-- An operand, with nothing behind it that it could go on with. -/
theorem eventually_takes_of_opens {node : Node} (h : ∀ᶠ depth in atTop, Opens depth node) :
    ∀ᶠ depth in atTop, Takes (expression depth) node.spell Done (Like node) :=
  eventually_of_add 3 (h.mono fun _ h => expressionOf_done (h.chain 1))

/-- Something in brackets, with nothing behind it that it could go on with. -/
theorem takes_of_primary {n : Nat} {c : String} {ps : List Piece} {P : Node → Prop}
    (h : Takes (primary n) (.punct c :: ps) anything P) :
    Takes (expression (n + 3)) (.punct c :: ps) Done P :=
  expressionOf_done (chainOf_rests (operand_of_primary rfl h) 1)

theorem admits_word (key : String) : (Token.Pattern.punct "\x7d").admits (.word key) = false := by
  unfold Piece.word
  split <;> rfl

/-- A field is read as its key and the tree of its data. -/
theorem property_of_field {depth : Nat} {field : String × Data}
    (h : Takes (expression depth) field.2.pieces Done (Like field.2.node)) :
    Takes (property (expression depth)) (fieldPieces field) Ends
      fun found => found.1 = field.1 ∧ Like field.2.node found.2 := by
  refine property_takes ?_ (ends_of_done h)
  rcases Piece.kind_word field.1 with hname | hkeyword
  · exact Or.inl hname
  · exact Or.inr (Or.inl hkeyword)

/-- The pieces of readable data are read as its tree, at every depth from some depth on. -/
theorem Readable.eventually_takes {d : Data} (h : d.Readable) :
    ∀ᶠ depth in atTop, Takes (expression depth) d.pieces Done (Like d.node) := by
  -- expression, chain, operand and primary stand between brackets and what is inside them
  induction h with
  | undefined => exact eventually_takes_of_opens (eventually_reads .undefined)
  | primitive own => exact eventually_takes_of_opens (eventually_reads own.fits)
  | array readable parts =>
    refine eventually_of_add 4 ?_
    filter_upwards [eventually_forall_mem parts] with depth hparts
    rw [pieces_array, node_array]
    refine takes_of_primary (n := depth + 1) (primaryOf_brackets ?_)
    refine arrayLiteral_takes node (fun d hd => (readable d hd).head) ?_
    exact fun d hd => ends_of_done (hparts d hd)
  | object words distinct readable parts =>
    refine eventually_of_add 4 ?_
    filter_upwards [eventually_forall_mem parts] with depth hparts
    rw [pieces_object, node_object]
    refine takes_of_primary (n := depth + 1) (primaryOf_braces ?_)
    refine objectLiteral_takes (fun field : String × Data => (field.1, field.2.node)) ?_ ?_
    · exact fun field _ => ⟨_, _, rfl, admits_word field.1⟩
    · exact fun field hf => property_of_field (hparts field hf)

end Data

end Scriptlet
