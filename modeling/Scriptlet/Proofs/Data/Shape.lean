import Mathlib.Data.List.Forall2
import Scriptlet.Proofs.Node.Spell
import Scriptlet.Store.Rendering

/-!
# Data

`Data` is what a value holds once references are followed: a tree that no longer mentions the store.
`Store.Shows s v d` says that the value `v` of the store `s` holds `d`: the same kinds and contents,
the elements in order, the keys in order. Data is finite, so a value that contains itself holds
none.

`Data.Readable` singles out the data that has a literal: integers that are not too long, no floats,
no newline inside a string, no char that would need a backslash, and words as keys.

Data is written in three ways, all by recursion over the tree (`Data.fold`):

* `Data.text` : as a text at a depth, laid out over lines;
* `Data.pieces` : as the tokens of that text;
* `Data.node` : as the tree that is read from those tokens.
-/

namespace Scriptlet

/-- What a value holds. -/
inductive Data where
  | undefined
  | primitive (p : Primitive)
  | array (items : List Data)
  | object (fields : List (String × Data))

namespace Data

variable {α : Type}

/-! ## Recursion -/

/-- What to make of each kind of data, given what was made of the parts. -/
structure Scheme (α : Type) where
  undefined : α
  primitive : Primitive → α
  array : List α → α
  object : List (String × α) → α

mutual

/-- Builds a result from the parts up. -/
def fold (f : Scheme α) : Data → α
  | undefined => f.undefined
  | primitive p => f.primitive p
  | array items => f.array (foldAll f items)
  | object fields => f.object (foldFields f fields)

/-- The results for a list of items. -/
def foldAll (f : Scheme α) : List Data → List α
  | [] => []
  | d :: rest => d.fold f :: foldAll f rest

/-- The results for a list of fields. -/
def foldFields (f : Scheme α) : List (String × Data) → List (String × α)
  | [] => []
  | (key, d) :: rest => (key, d.fold f) :: foldFields f rest

end

theorem fold_array (f : Scheme α) (items : List Data) :
    (array items).fold f = f.array (items.map (fold f)) := by
  have hall : ∀ items, foldAll f items = items.map (fold f) := by
    intro items
    induction items with
    | nil => rfl
    | cons d rest ih => rw [foldAll, ih, List.map_cons]
  rw [fold, hall]

theorem fold_object (f : Scheme α) (fields : List (String × Data)) :
    (object fields).fold f = f.object (fields.map fun field => (field.1, field.2.fold f)) := by
  have hall : ∀ fields,
      foldFields f fields = fields.map fun field => (field.1, field.2.fold f) := by
    intro fields
    induction fields with
    | nil => rfl
    | cons field rest ih => rw [foldFields, ih, List.map_cons]
  rw [fold, hall]

end Data

/-! ## Data with a literal -/

/-- The primitive has a literal that is written as it shows inside an array or object. -/
def Primitive.Readable : Primitive → Prop
  | .int n => (Number.Integer.digits n.natAbs).length ≤ Number.Integer.digitLimit
  | .float _ => False
  | .string s => '\n' ∉ s.toList
  | .char c => c ∉ ['\'', '\\', '\n']
  | .bool _ => True

instance : DecidablePred Primitive.Readable
  | .int _ => inferInstanceAs (Decidable (_ ≤ _))
  | .float _ => inferInstanceAs (Decidable False)
  | .string s => inferInstanceAs (Decidable ('\n' ∉ s.toList))
  | .char c => inferInstanceAs (Decidable (c ∉ ['\'', '\\', '\n']))
  | .bool _ => inferInstanceAs (Decidable True)

/-- All of the data has a literal. -/
inductive Data.Readable : Data → Prop where
  | undefined : Readable .undefined
  | primitive {p : Primitive} (own : p.Readable) : Readable (.primitive p)
  | array {items : List Data} (parts : ∀ d ∈ items, Readable d) : Readable (.array items)
  | object {fields : List (String × Data)} (words : ∀ field ∈ fields, Token.isWord field.1 = true)
      (distinct : (fields.map (·.1)).Nodup) (parts : ∀ field ∈ fields, Readable field.2) :
      Readable (.object fields)

/-! ## The data of a value -/

namespace Store

mutual

/-- The value holds the data. -/
inductive Shows (s : Store) : Value → Data → Prop where
  | undefined : Shows s .undefined .undefined
  | primitive (p : Primitive) (box : Nat) : Shows s (.primitive p box) (.primitive p)
  | array {id : ArrayId} {elements : Array Value} {items : List Data}
      (cell : s.arrays[id.index]? = some elements)
      (parts : List.Forall₂ (Shows s) elements.toList items) : Shows s (.array id) (.array items)
  | object {id : ObjectId} {o : Object} {fields : List (String × Data)}
      (cell : s.objectAt? id = some o) (plain : o.function = none)
      (parts : List.Forall₂ (ShowsField s) o.properties fields) :
      Shows s (.object id) (.object fields)

/-- The property holds the data under the same key. -/
inductive ShowsField (s : Store) : String × Property → String × Data → Prop where
  | intro {p : Property} {d : Data} (key : String) (own : Shows s p.value d) :
      ShowsField s (key, p) (key, d)

end

end Store

/-! ## Three ways to write data -/

/-- The literal of a primitive. -/
def Primitive.literal : Primitive → Node
  | .int n => .integer 0 n
  | .float x => .float 0 x
  | .string s => .string 0 s
  | .char c => .char 0 (String.ofList [c])
  | .bool b => .bool 0 b

namespace Data

open Piece

/-- As a text at a depth. -/
def text : Data → Nat → String := fold
  { undefined := fun _ => "undefined"
    primitive := fun p _ => String.ofList (p.literal.spell.flatMap write)
    array := fun items depth => "[" ++ ", ".intercalate (items.map (· depth)) ++ "]"
    object := fun fields depth =>
      braced depth (fields.map fun field => field.1 ++ ": " ++ field.2 (depth + 1)) }

/-- As the tokens of that text. -/
def pieces : Data → List Piece := fold
  { undefined := [keyword "undefined"]
    primitive := fun p => p.literal.spell
    array := fun items => punct "[" :: Node.commas id (punct "]") items
    object := fun fields => punct "\x7b" ::
      Node.commas (fun field => word field.1 :: punct ":" :: field.2) (punct "\x7d") fields }

/-- As the tree of those tokens. -/
def node : Data → Node := fold
  { undefined := .undefined 0
    primitive := Primitive.literal
    array := .array 0
    object := .object 0 }

/-- A field as a text at a depth. -/
def fieldText (depth : Nat) (field : String × Data) : String :=
  field.1 ++ ": " ++ field.2.text (depth + 1)

/-- A field as the tokens of that text. -/
def fieldPieces (field : String × Data) : List Piece :=
  word field.1 :: punct ":" :: field.2.pieces

theorem text_array (items : List Data) (depth : Nat) :
    (array items).text depth = "[" ++ ", ".intercalate (items.map (·.text depth)) ++ "]" := by
  rw [text, fold_array]
  dsimp only
  rw [List.map_map]
  rfl

theorem text_object (fields : List (String × Data)) (depth : Nat) :
    (object fields).text depth = braced depth (fields.map (fieldText depth)) := by
  rw [text, fold_object]
  dsimp only
  rw [List.map_map]
  rfl

example : (object [("in", array [primitive (.int (-1)), undefined]), ("b", array []),
    ("c", object [("d", primitive (.string "\""))])]).text 0 =
      "\x7b\n  in: [-1, undefined],\n  b: [],\n  c: \x7b d: \"\\\"\" \x7d\n\x7d" := by
  rfl

theorem pieces_array (items : List Data) :
    (array items).pieces = punct "[" :: Node.commas pieces (punct "]") items := by
  rw [pieces, fold_array]
  dsimp only
  rw [Node.commas_map]
  rfl

theorem pieces_object (fields : List (String × Data)) :
    (object fields).pieces = punct "\x7b" :: Node.commas fieldPieces (punct "\x7d") fields := by
  rw [pieces, fold_object]
  dsimp only
  rw [Node.commas_map]
  rfl

theorem node_array (items : List Data) : (array items).node = .array 0 (items.map node) := by
  rw [node, fold_array]

theorem node_object (fields : List (String × Data)) :
    (object fields).node = .object 0 (fields.map fun field => (field.1, field.2.node)) := by
  rw [node, fold_object]

end Data

end Scriptlet
