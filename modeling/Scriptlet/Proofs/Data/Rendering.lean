import Scriptlet.Proofs.Data.Shape
import Scriptlet.Proofs.Depth

/-!
# How values are rendered

A value that holds readable data is rendered as the text of that data, at every limit from some
limit on (`Data.Readable.eventually_nested`). The limit depends on the data only, and not on where
in the store the value has its cells.
-/

namespace Scriptlet

/-! ## Primitives -/

/-- Where there is no newline, protecting a text and writing a string come to the same. -/
theorem Text.Escape.protect_eq {cs : List Char} (h : '\n' ∉ cs) :
    protect cs = cs.flatMap (Piece.escaped '"') := by
  refine List.flatMap_congr fun c hc => ?_
  have hn : c ≠ '\n' := by
    rintro rfl
    exact h hc
  rw [Piece.escaped, if_neg hn]

/-- A readable primitive is rendered as the pieces of its literal, with nothing between them. -/
theorem Primitive.Readable.nestedText {p : Primitive} (h : p.Readable) :
    p.nestedText = .ok (String.ofList (p.literal.spell.flatMap Piece.write)) := by
  cases p with
  | int n =>
    show integerText n = .ok (String.ofList ((Node.integerPieces n).flatMap Piece.write))
    rw [integerText, Number.Integer.text?_of_length_le h, Node.integerPieces]
    by_cases hn : n < 0 <;> simp [hn, Piece.write]
  | float x => exact h.elim
  | string s =>
    show Except.ok ("\"" ++ String.ofList (Text.Escape.protect s.toList) ++ "\"") = _
    rw [Text.Escape.protect_eq h]
    simp [literal, Node.spell, Piece.write, Piece.quoted, ← String.toList_inj]
  | char c =>
    have hself : Piece.escaped '\'' c = [c] := by
      unfold Piece.escaped
      simp_all [Primitive.Readable]
    show Except.ok ("'" ++ c.toString ++ "'") = _
    simp [literal, Node.spell, Piece.write, Piece.quoted, hself, ← String.toList_inj]
  | bool b => cases b <;> rfl

/-! ## Arrays and objects -/

/-- Texts that are made one by one. -/
theorem mapM_of_forall₂ {α β γ : Type} {R : α → β → Prop} {f : α → Except Fault γ} {g : β → γ}
    {xs : List α} {ys : List β} (h : List.Forall₂ R xs ys)
    (hf : ∀ y ∈ ys, ∀ x, R x y → f x = .ok (g y)) : xs.mapM f = .ok (ys.map g) := by
  induction h with
  | nil => rfl
  | cons hxy _ ih =>
    rw [List.mapM_cons, hf _ List.mem_cons_self _ hxy,
      ih fun y hy => hf y (List.mem_cons_of_mem _ hy)]
    rfl

namespace Data.Readable

open Filter

/-- Values that hold the data are rendered as its text, at every limit from some limit on. -/
theorem eventually_nested (s : Store) {d : Data} (h : d.Readable) :
    ∀ᶠ limit in atTop, ∀ v, s.Shows v d → ∀ depth, s.nested limit depth v = .ok (d.text depth) := by
  -- the limit is chosen before the value: the elements of a cell are not known to the induction,
  -- only what they hold
  induction h with
  | undefined =>
    refine eventually_of_add 1 (.of_forall ?_)
    rintro limit _ ⟨⟩ depth
    rfl
  | primitive own =>
    refine eventually_of_add 1 (.of_forall ?_)
    rintro limit _ ⟨⟩ depth
    exact own.nestedText
  | array _ parts =>
    refine eventually_of_add 1 ?_
    filter_upwards [eventually_forall_mem parts] with limit hparts
    rintro _ (_ | _ | ⟨cell, shown⟩) depth
    have htexts := mapM_of_forall₂ shown fun d hd v hv => hparts d hd v hv depth
    rw [text_array, Store.nested, Store.elements, cell]
    dsimp only [Option.getD_some]
    rw [htexts]
    rfl
  | @object fields _ _ _ parts =>
    refine eventually_of_add 1 ?_
    filter_upwards [eventually_forall_mem parts] with limit hparts
    rintro _ (_ | _ | _ | ⟨cell, plain, shown⟩) depth
    have hfield : ∀ field ∈ fields, ∀ entry, s.ShowsField entry field →
        (do return entry.1 ++ ": " ++ (← s.nested limit (depth + 1) entry.2.value)) =
          Except.ok (fieldText depth field) := by
      rintro _ hd _ ⟨key, own⟩
      rw [hparts _ hd _ own (depth + 1)]
      rfl
    have htexts := mapM_of_forall₂ shown hfield
    rw [text_object, Store.nested, Store.function?, Store.properties, cell]
    dsimp only [Option.bind_some, Option.map_some, Option.getD_some]
    rw [plain]
    dsimp only
    rw [htexts]
    rfl

end Data.Readable

end Scriptlet
