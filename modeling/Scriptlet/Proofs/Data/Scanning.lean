import Scriptlet.Proofs.Data.Shape
import Scriptlet.Proofs.Token.Scan

/-!
# The tokens of rendered data

The text of readable data scans to its pieces, whatever the depth and however its objects are laid
out (`Data.Readable.scans`). Lines and indentation are gaps; whatever stands behind an item (a
comma, a bracket, a blank, a newline) ends it.
-/

namespace Scriptlet

open Piece Token
open Lexeme (Clear clear_cons)

/-! ## Literals and keys -/

/-- A readable primitive scans to its literal. -/
theorem Primitive.Readable.scans {p : Primitive} (h : p.Readable) :
    Scans (p.literal.spell.flatMap write) p.literal.spell Clear := by
  have single : ∀ q : Piece, q.Proper → q.isSign = false → Scans ([q].flatMap write) [q] Clear := by
    intro q hq hs
    rw [List.flatMap_singleton]
    exact .piece hq hs
  cases p with
  | int n =>
    have hproper := Node.AllProper.integerPieces n
    show Scans ((Node.integerPieces n).flatMap write) (Node.integerPieces n) Clear
    unfold Node.integerPieces at hproper ⊢
    dsimp only at hproper ⊢
    split
    · next hn =>
      rw [if_pos hn] at hproper
      rw [List.flatMap_cons]
      exact Scans.minus.next (single _ (hproper _ (by simp)) rfl)
    · next hn =>
      rw [if_neg hn] at hproper
      exact single _ (hproper _ (by simp)) rfl
  | float x => exact h.elim
  | string s => exact single ⟨.string, s⟩ trivial rfl
  | char c => exact single ⟨.char, String.ofList [c]⟩ ⟨c, rfl⟩ rfl
  | bool b =>
    cases b
    · exact single (keyword "false") (Node.proper_of_mem_fixed _ (by decide)) rfl
    · exact single (keyword "true") (Node.proper_of_mem_fixed _ (by decide)) rfl

/-- A key scans to a word. -/
theorem Token.scans_word {text : String} (h : Token.isWord text = true) :
    Scans text.toList [word text] Clear := by
  have hproper := Node.proper_word h
  unfold word at hproper ⊢
  by_cases hk : keywords.contains text = true
  · rw [if_pos hk] at hproper ⊢
    exact .piece hproper rfl
  · rw [if_neg hk] at hproper ⊢
    exact .piece hproper rfl

/-! ## Lists -/

/-- Items with a separator between them, up to the closing piece. -/
theorem Token.Scans.commas {ι : Type} {text : ι → List Char} {spell : ι → List Piece}
    {sep close : List Char} {p : Piece} (hsep : Scans sep [punct ","] anyText)
    (between : ∀ rest, Clear (sep ++ rest)) (hclose : Scans close [p] anyText)
    (behind : ∀ rest, Clear (close ++ rest)) :
    ∀ xs : List ι, (∀ x ∈ xs, Scans (text x) (spell x) Clear) →
      Scans (sep.intercalate (xs.map text) ++ close) (Node.commas spell p xs) anyText
  | [], _ => hclose
  | [x], h => by
    have hx := (h x List.mem_cons_self).append hclose fun rest _ => behind rest
    simpa [Node.commas, joined, comma] using hx
  | x :: y :: xs, h => by
    have hxs := commas hsep between hclose behind (y :: xs)
      fun z hz => h z (List.mem_cons_of_mem _ hz)
    have hx := (h x List.mem_cons_self).append (hsep.next hxs) fun rest _ => by
      rw [List.append_assoc]
      exact between _
    rw [List.map_cons, List.map_cons, List.intercalate_cons_cons]
    simpa [Node.commas, joined, comma] using hx

theorem Token.scans_comma : Scans [','] [punct ","] anyText := .bracket (by decide)

/-- Items in brackets. -/
theorem Token.scans_bracketed {ι : Type} {text : ι → String} {spell : ι → List Piece}
    {xs : List ι} (h : ∀ x ∈ xs, Scans (text x).toList (spell x) Clear) :
    Scans ("[" ++ ", ".intercalate (xs.map text) ++ "]").toList
      (punct "[" :: Node.commas spell (punct "]") xs) anyText := by
  have opening : Scans ['['] [punct "["] anyText := .bracket (by decide)
  have closing : Scans [']'] [punct "]"] anyText := .bracket (by decide)
  have hxs := Scans.commas (scans_comma.next .blank) (fun _ => clear_cons (by decide) _) closing
    (fun _ => clear_cons (by decide) _) xs h
  have hall := opening.next hxs
  simpa [String.toList_intercalate, Function.comp_def] using hall

/-- Fields in braces, on one line or on several. -/
theorem Token.scans_braced {ι : Type} {text : ι → String} {spell : ι → List Piece} (depth : Nat)
    {xs : List ι} (h : ∀ x ∈ xs, Scans (text x).toList (spell x) Clear) :
    Scans (braced depth (xs.map text)).toList
      (punct "\x7b" :: Node.commas spell (punct "\x7d") xs) anyText := by
  have opening : Scans ['\x7b'] [punct "\x7b"] anyText := .bracket (by decide)
  have closing : Scans ['\x7d'] [punct "\x7d"] anyText := .bracket (by decide)
  unfold braced
  split
  · next hempty =>
    obtain rfl : xs = [] := by simpa using hempty
    exact opening.next closing
  · split
    · have hxs := Scans.commas (scans_comma.next .blank) (fun _ => clear_cons (by decide) _)
        (Scans.blank.next closing) (fun _ => clear_cons (by decide) _) xs h
      have hall := opening.next (Scans.blank.next hxs)
      simpa [String.toList_intercalate, Function.comp_def] using hall
    · -- behind the indentation every line is as it would be on a single one
      have hline : ∀ x ∈ xs, Scans (indentation (depth + 1) ++ text x).toList (spell x) Clear := by
        intro x hx
        rw [String.toList_append, indentation, String.toList_ofList]
        exact (Scans.blanks _).next (h x hx)
      have hend : Scans ('\n' :: ((indentation depth).toList ++ ['\x7d'])) [punct "\x7d"]
          anyText := by
        rw [indentation, String.toList_ofList]
        exact Scans.newline.next ((Scans.blanks _).next closing)
      have hxs := Scans.commas (scans_comma.next .newline) (fun _ => clear_cons (by decide) _) hend
        (fun _ => clear_cons (by decide) _) xs hline
      have hall := opening.next (Scans.newline.next hxs)
      simpa [String.toList_intercalate, Function.comp_def] using hall

/-! ## Data -/

namespace Data

/-- A field scans to its key, the colon and its data. -/
theorem scans_field {field : String × Data} {depth : Nat} (hword : Token.isWord field.1 = true)
    (h : Scans (field.2.text (depth + 1)).toList field.2.pieces Clear) :
    Scans (fieldText depth field).toList (fieldPieces field) Clear := by
  have colon : Scans [':', ' '] [punct ":"] anyText :=
    .spaced (p := punct ":") (Node.proper_of_mem_fixed _ (by decide))
  have hall := (scans_word hword).append (colon.next h) fun _ _ => clear_cons (by decide) _
  simpa [fieldText, fieldPieces] using hall

/-- The text of readable data scans to its pieces. -/
theorem Readable.scans {d : Data} (h : d.Readable) :
    ∀ depth, Scans (d.text depth).toList d.pieces Clear := by
  induction h with
  | undefined =>
    intro depth
    exact .piece (p := keyword "undefined") (Node.proper_of_mem_fixed _ (by decide)) rfl
  | primitive own =>
    intro depth
    have hown := own.scans
    rwa [← String.toList_ofList (l := List.flatMap _ _)] at hown
  | array _ parts =>
    intro depth
    rw [text_array, pieces_array]
    exact (scans_bracketed fun d hd => parts d hd depth).mono fun _ _ => trivial
  | object words _ _ parts =>
    intro depth
    rw [text_object, pieces_object]
    refine (scans_braced depth fun field hf => ?_).mono fun _ _ => trivial
    exact scans_field (words field hf) (parts field hf (depth + 1))

end Data

end Scriptlet
