import Scriptlet.Proofs.Store.Containment

/-!
# Nested texts are indented

An object with many entries takes a line for each of them, and the depth of the object says how far
those lines are indented. Objects show their values one level deeper, whether they are on one line
or on many; arrays leave the depth as it is. Seen from outside all this is simple: the text of a
value at a depth is its text at depth zero, moved to the right as a whole
(`nested_text_is_indented`). Only the newlines of the layout may be followed by more space, so
nothing that is shown may have a newline of its own.

* `indented` : a text that is moved to the right.
* `Store.Unbroken` : a value without a newline in anything that it shows.
-/

namespace Scriptlet

open Number

/-! ## Moving a text to the right -/

/-- A text with two spaces for each level of a depth put in after every newline. -/
def indented (depth : Nat) (text : String) : String :=
  String.ofList (text.toList.flatMap fun c =>
    if c = '\n' then '\n' :: List.replicate (2 * depth) ' ' else [c])

/-- A text without a newline. -/
def OneLine (text : String) : Prop := '\n' ∉ text.toList

instance : DecidablePred OneLine := fun text => inferInstanceAs (Decidable ('\n' ∉ text.toList))

theorem oneLine_append {t u : String} : OneLine (t ++ u) ↔ OneLine t ∧ OneLine u := by
  simp [OneLine]

theorem oneLine_ofList {cs : List Char} : OneLine (String.ofList cs) ↔ '\n' ∉ cs := by
  rw [OneLine, String.toList_ofList]

theorem oneLine_indentation (depth : Nat) : OneLine (indentation depth) := by
  rw [indentation, oneLine_ofList]
  intro h
  exact absurd (List.eq_of_mem_replicate h) (by decide)

theorem indentation_add (depth inner : Nat) :
    indentation depth ++ indentation inner = indentation (depth + inner) := by
  rw [indentation, indentation, indentation, ← String.ofList_append,
    List.replicate_append_replicate, Nat.mul_add]

@[simp] theorem indented_append (depth : Nat) (t u : String) :
    indented depth (t ++ u) = indented depth t ++ indented depth u := by
  rw [indented, String.toList_append, List.flatMap_append, String.ofList_append]
  rfl

/-- A text on one line stays where it is. -/
theorem indented_of_oneLine {text : String} (h : OneLine text) (depth : Nat) :
    indented depth text = text := by
  have hkept : text.toList.flatMap (fun c =>
      if c = '\n' then '\n' :: List.replicate (2 * depth) ' ' else [c]) = text.toList := by
    refine Eq.trans (List.flatMap_congr fun c hc => ?_) (List.flatMap_singleton' text.toList)
    have hn : c ≠ '\n' := by
      rintro rfl
      exact h hc
    exact if_neg hn
  rw [indented, hkept, String.ofList_toList]

theorem indented_newline (depth : Nat) : indented depth "\n" = "\n" ++ indentation depth := by
  rw [← String.toList_inj]
  simp [indented, indentation]

theorem indented_intercalate (depth : Nat) (separator : String) : ∀ texts : List String,
    indented depth (separator.intercalate texts) =
      (indented depth separator).intercalate (texts.map (indented depth))
  | [] => by simp [indented]
  | [text] => by simp
  | text :: next :: rest => by
    have ih := indented_intercalate depth separator (next :: rest)
    simp only [List.map_cons, String.intercalate_cons_cons, indented_append] at ih ⊢
    rw [ih]

/-- Moving twice is moving once. -/
theorem indented_indented (depth inner : Nat) (text : String) :
    indented depth (indented inner text) = indented (depth + inner) text := by
  obtain ⟨cs, rfl⟩ : ∃ cs, text = String.ofList cs := ⟨text.toList, String.ofList_toList.symm⟩
  induction cs with
  | nil => rfl
  | cons c rest ih =>
    have hcons : String.ofList (c :: rest) = String.ofList [c] ++ String.ofList rest := by
      rw [← String.ofList_append, List.singleton_append]
    simp only [hcons, indented_append, ih]
    by_cases hc : c = '\n'
    · have htwice : indented depth (indented inner "\n") = indented (depth + inner) "\n" := by
        rw [indented_newline, indented_append, indented_newline, indented_newline,
          indented_of_oneLine (oneLine_indentation inner), String.append_assoc, indentation_add]
      have hnewline : String.ofList [c] = "\n" := congrArg (fun c => String.ofList [c]) hc
      rw [hnewline, htwice]
    · have hline : OneLine (String.ofList [c]) := by
        rw [oneLine_ofList, List.mem_singleton]
        exact Ne.symm hc
      simp only [indented_of_oneLine hline]

/-- Space in front of all items and after each separator is space in front of every item. -/
theorem append_intercalate (lead separator : String) : ∀ texts : List String, texts ≠ [] →
    lead ++ (separator ++ lead).intercalate texts = separator.intercalate (texts.map (lead ++ ·))
  | [text], _ => by simp
  | text :: next :: rest, _ => by
    have ih := append_intercalate lead separator (next :: rest) (List.cons_ne_nil _ _)
    simp only [List.map_cons, String.intercalate_cons_cons] at ih ⊢
    rw [← ih]
    simp only [String.append_assoc]

/-- Text at the end of a line takes the space in front of the next one. -/
theorem indented_line {text : String} (h : OneLine text) (depth : Nat) :
    indented depth (text ++ "\n") = text ++ "\n" ++ indentation depth := by
  rw [indented_append, indented_of_oneLine h, indented_newline, String.append_assoc]

/-- Entries in braces are as many levels deeper as the text is moved by. -/
theorem indented_braced (depth inner : Nat) (entries : List String) :
    indented depth (braced inner entries) =
      braced (depth + inner) (entries.map (indented depth)) := by
  unfold braced
  simp only [List.isEmpty_map, List.length_map]
  split
  · exact indented_of_oneLine (by decide) depth
  · next hnonempty =>
    split
    · simp only [indented_append, indented_intercalate]
      rw [indented_of_oneLine (by decide) depth, indented_of_oneLine (by decide) depth,
        indented_of_oneLine (by decide) depth]
    · have hopen : indented depth "\x7b\n" = "\x7b\n" ++ indentation depth :=
        indented_line (by decide : OneLine "\x7b") depth
      have hcomma : indented depth ",\n" = ",\n" ++ indentation depth :=
        indented_line (by decide : OneLine ",") depth
      have hclose : indented depth "\x7d" = "\x7d" := indented_of_oneLine (by decide) depth
      have hentries : ((entries.map (indentation (inner + 1) ++ ·)).map (indented depth)).map
          (indentation depth ++ ·) =
            (entries.map (indented depth)).map (indentation (depth + inner + 1) ++ ·) := by
        simp only [List.map_map]
        refine List.map_congr_left fun entry _ => ?_
        simp only [Function.comp, indented_append]
        rw [indented_of_oneLine (oneLine_indentation _), ← String.append_assoc, indentation_add,
          Nat.add_assoc]
      have hlines := append_intercalate (indentation depth) ",\n"
        ((entries.map (indentation (inner + 1) ++ ·)).map (indented depth))
        (by simpa using hnonempty)
      rw [hentries] at hlines
      simp only [indented_append, indented_intercalate, hopen, hcomma, hclose, indented_newline,
        indented_of_oneLine (oneLine_indentation inner)]
      rw [← hlines, ← indentation_add depth inner]
      simp only [String.append_assoc]

/-! ## Texts on one line -/

theorem newline_notMem_toDigits (n : Nat) : '\n' ∉ Nat.toDigits 10 n := by
  intro h
  have hdigit := Nat.isDigit_of_mem_toDigits (by decide) (by decide) h
  revert hdigit
  decide

theorem oneLine_toString (n : Nat) : OneLine (toString n) := by
  rw [OneLine, Nat.toString_eq_repr, Nat.toList_repr]
  exact newline_notMem_toDigits n

namespace Number

theorem Decimal.newline_notMem_search (units : Nat) (point : Int) : ∀ tries n : Nat,
    '\n' ∉ (search units point tries n).digits
  | 0, _ => List.not_mem_nil
  | tries + 1, n => by
    rw [search]
    split
    · next count _ =>
      intro h
      have hrow : '\n' ∈ Nat.toDigits 10 count := by
        have := (List.dropWhile_suffix (fun c : Char => c == '0')).subset (List.mem_reverse.mp h)
        exact List.mem_reverse.mp this
      exact newline_notMem_toDigits count hrow
    · exact newline_notMem_search units point tries (n + 1)

theorem Decimal.newline_notMem_exponentText (e : Int) : '\n' ∉ exponentText e := by
  have := newline_notMem_toDigits e.natAbs
  unfold exponentText
  dsimp only
  split <;> split <;> simp [this]

theorem Decimal.newline_notMem_layout {d : Decimal} (h : '\n' ∉ d.digits) : '\n' ∉ d.layout := by
  have hexponent := newline_notMem_exponentText (d.point - 1)
  have htake : ∀ n, '\n' ∉ d.digits.take n := fun n hn => h (List.mem_of_mem_take hn)
  have hdrop : ∀ n, '\n' ∉ d.digits.drop n := fun n hn => h (List.mem_of_mem_drop hn)
  unfold layout
  dsimp only
  split
  · split
    · simp [h]
    · split <;> simp [htake, hdrop]
  · split
    · simp
    · next first hdigits =>
      rw [hdigits] at h
      simp_all
    · next first rest _ hdigits =>
      rw [hdigits] at h
      simp_all

theorem Double.oneLine_text (x : Double) : OneLine x.text := by
  cases x with
  | nan => decide
  | infinite negative => cases negative <;> decide
  | finite negative units =>
    have hbody :
        '\n' ∉ (if units = 0 then ['0', '.', '0'] else (Decimal.shortest units).layout) := by
      split
      · decide
      · exact Decimal.newline_notMem_layout (Decimal.newline_notMem_search units _ _ _)
    rw [text, oneLine_ofList]
    split
    · rw [List.mem_cons, not_or]
      exact ⟨by decide, hbody⟩
    · exact hbody

end Number

theorem oneLine_of_integerText {n : Int} {text : String} (h : integerText n = .ok text) :
    OneLine text := by
  have hdigits := newline_notMem_toDigits n.natAbs
  unfold integerText at h
  split at h
  · next written hwritten =>
    cases h
    unfold Integer.text? at hwritten
    split at hwritten
    · cases hwritten
      rw [oneLine_ofList]
      split
      · rw [List.mem_cons, not_or]
        exact ⟨by decide, hdigits⟩
      · exact hdigits
    · cases hwritten
  · cases h

theorem Function.oneLine_text {f : Function} {text : String} (hname : OneLine f.name)
    (h : f.text = .ok text) : OneLine text := by
  have hhead : OneLine ("fn " ++ f.name ++ "(") :=
    oneLine_append.mpr ⟨oneLine_append.mpr ⟨by decide, hname⟩, by decide⟩
  unfold Function.text at h
  split at h
  · cases h
    exact oneLine_append.mpr ⟨oneLine_append.mpr ⟨hhead, oneLine_toString _⟩, by decide⟩
  · cases h
    exact oneLine_append.mpr ⟨oneLine_append.mpr ⟨hhead, oneLine_toString _⟩, by decide⟩
  · cases h
    exact oneLine_append.mpr ⟨oneLine_append.mpr ⟨by decide, hname⟩, by decide⟩
  · cases h

namespace Store

variable {s : Store} {v w : Value}

/-- What a value shows of itself, besides what it contains, is on one line. -/
def ShowsLine (s : Store) : Value → Prop
  | .primitive (.string text) _ => OneLine text
  | .primitive (.char c) _ => c ≠ '\n'
  | .foreign content _ => OneLine content.plain
  | .object id =>
    match s.function? id with
    | some f => OneLine f.name
    | none => ∀ key ∈ (s.properties id).keys, OneLine key
  | _ => True

/-- No string, char, key or function name in a value has a newline. -/
def Unbroken (s : Store) (v : Value) : Prop := ∀ w, s.Within v w → s.ShowsLine w

theorem unbroken_iff : s.Unbroken v ↔ s.ShowsLine v ∧ ∀ w ∈ s.contents v, s.Unbroken w :=
  forall_within_iff

theorem oneLine_nestedText {p : Primitive} {box : Nat} {text : String}
    (h : s.ShowsLine (.primitive p box)) (ht : p.nestedText = .ok text) : OneLine text := by
  cases p with
  | int n => exact oneLine_of_integerText ht
  | float x =>
    cases ht
    exact Double.oneLine_text x
  | bool b =>
    cases ht
    cases b <;> decide
  | char c =>
    cases ht
    have hc : OneLine c.toString := oneLine_ofList.mpr (by simpa using Ne.symm h)
    exact oneLine_append.mpr ⟨oneLine_append.mpr ⟨by decide, hc⟩, by decide⟩
  | string content =>
    cases ht
    have hc : OneLine (String.ofList (Text.Escape.protect content.toList)) := by
      rw [oneLine_ofList, Text.Escape.protect, List.mem_flatMap]
      rintro ⟨c, hc, hn⟩
      have hself : '\n' = c := by
        split at hn
        · simpa using hn
        · simpa using hn
      exact h (hself ▸ hc)
    exact oneLine_append.mpr ⟨oneLine_append.mpr ⟨by decide, hc⟩, by decide⟩

theorem map_indented {answer : Except Fault String} (depth : Nat)
    (h : ∀ text, answer = .ok text → OneLine text) : indented depth <$> answer = answer := by
  cases answer with
  | error fault => rfl
  | ok text => rw [Except.map_ok, indented_of_oneLine (h text rfl)]

/-- Texts that are made one by one, each moved by a step of its own. -/
theorem mapM_eq_map_mapM {α β : Type} {f f' : α → Except Fault β} {g : β → β} :
    ∀ {items : List α}, (∀ a ∈ items, f a = g <$> f' a) →
      items.mapM f = List.map g <$> items.mapM f'
  | [], _ => rfl
  | a :: rest, h => by
    rw [List.mapM_cons, List.mapM_cons, h a List.mem_cons_self,
      mapM_eq_map_mapM fun b hb => h b (List.mem_cons_of_mem a hb)]
    cases f' a with
    | error fault => rfl
    | ok b =>
      cases rest.mapM f' with
      | error fault => rfl
      | ok bs => rfl

theorem indented_bracketed (depth : Nat) (texts : List String) :
    indented depth ("[" ++ ", ".intercalate texts ++ "]") =
      "[" ++ ", ".intercalate (texts.map (indented depth)) ++ "]" := by
  simp only [indented_append, indented_intercalate]
  rw [indented_of_oneLine (by decide) depth, indented_of_oneLine (by decide) depth,
    indented_of_oneLine (by decide) depth]

/-- An entry of an object is one level deeper than the object. -/
theorem entry_eq_map_indented {key : String} (hkey : OneLine key) {levels : Nat}
    (h : ∀ depth, s.nested levels depth v = indented depth <$> s.nested levels 0 v) (depth : Nat) :
    (do return key ++ ": " ++ (← s.nested levels (depth + 1) v)) =
      indented depth <$> (do return key ++ ": " ++ (← s.nested levels (0 + 1) v)) := by
  rw [h (depth + 1), h (0 + 1)]
  cases s.nested levels 0 v with
  | error fault => rfl
  | ok text =>
    have hlabel : OneLine (key ++ ": ") := oneLine_append.mpr ⟨hkey, by decide⟩
    show Except.ok _ = Except.ok _
    rw [indented_append, indented_of_oneLine hlabel, indented_indented, Nat.zero_add]

/-- The text at a depth is the text at depth zero, moved to the right. What matters is that the
texts of the parts are so at every depth: an object shows its values one level deeper. -/
theorem nested_eq_map_indented : ∀ (levels depth : Nat) {v : Value}, s.Unbroken v →
    s.nested levels depth v = indented depth <$> s.nested levels 0 v
  | 0, _, _, _ => rfl
  | levels + 1, depth, v, h => by
    obtain ⟨hv, hcontents⟩ := unbroken_iff.mp h
    have hparts : ∀ w ∈ s.contents v, ∀ depth,
        s.nested levels depth w = indented depth <$> s.nested levels 0 w :=
      fun w hw depth => nested_eq_map_indented levels depth (hcontents w hw)
    cases v with
    | undefined => exact (map_indented depth fun text ht => by cases ht; decide).symm
    | foreign content box =>
      exact (map_indented depth fun text ht => by cases ht; exact hv).symm
    | primitive p box => exact (map_indented depth fun text ht => oneLine_nestedText hv ht).symm
    | array id =>
      rw [contents] at hparts
      rw [nested, nested, mapM_eq_map_mapM fun element he => hparts element he depth]
      cases (s.elements id).toList.mapM fun element => s.nested levels 0 element with
      | error fault => rfl
      | ok texts => exact congrArg Except.ok (indented_bracketed depth texts).symm
    | object id =>
      rw [nested, nested]
      dsimp only
      cases hf : s.function? id with
      | some f =>
        rw [ShowsLine, hf] at hv
        exact (map_indented depth fun text ht => f.oneLine_text hv ht).symm
      | none =>
        rw [ShowsLine, hf] at hv
        rw [contents, hf, List.forall_mem_map] at hparts
        dsimp only
        rw [mapM_eq_map_mapM fun entry he =>
          entry_eq_map_indented (hv entry.1 (List.mem_map_of_mem he)) (hparts entry he) depth]
        cases (s.properties id).mapM fun entry => do
            return entry.1 ++ ": " ++ (← s.nested levels (0 + 1) entry.2.value) with
        | error fault => rfl
        | ok texts => exact congrArg Except.ok (indented_braced depth 0 texts).symm

/-- Take any value in which no string, char, key or function name has a newline. Whatever number of
levels nesting may have, the text of the value at a depth is its text at depth zero with two spaces
for each level of the depth after every newline, and where the one fails, the other does so for the
same reason. There is a text if the value ends, its integers can be written and nesting may go
deeper than there are objects and arrays. -/
theorem nested_text_is_indented (s : Store) (v : Value) (h : s.Unbroken v) :
    (∀ levels depth, s.nested levels depth v = indented depth <$> s.nested levels 0 v) ∧
    (s.Coded → s.Legible v → ¬ s.Endless v → ∀ levels, s.cells < levels →
      ∃ text, s.nested levels 0 v = .ok text ∧
        ∀ depth, s.nested levels depth v = .ok (indented depth text)) := by
  refine ⟨fun levels depth => nested_eq_map_indented levels depth h, ?_⟩
  intro hs hlegible hends levels hlevels
  have hshowable : s.Showable levels v :=
    ⟨fun hpath => hends (hpath.endless hlevels), hlegible⟩
  obtain ⟨text, htext⟩ := (exists_ok_iff_of_tells (tells_nested hs levels 0 v)).mpr hshowable
  refine ⟨text, htext, fun depth => ?_⟩
  rw [nested_eq_map_indented levels depth h, htext]
  rfl

/-- An array with an object on one line, which holds an object with a line for each entry. -/
theorem nested_text_of_object_in_line :
    let inner : Object := ⟨none, [("x", { value := .string "\\" }), ("y", { value := .bool true }),
      ("z", { value := .bool false })], none⟩
    let outer : Object := ⟨none, [("a", { value := .object ⟨0⟩ })], none⟩
    let s : Store := ⟨#[], #[], #[inner, outer], #[#[.object ⟨1⟩]], 0⟩
    s.Unbroken (.array ⟨0⟩) ∧ s.Coded ∧ s.Legible (.array ⟨0⟩) ∧ ¬ s.Endless (.array ⟨0⟩) ∧
      s.nested 4 0 (.array ⟨0⟩) = .ok
        "[\x7b a: \x7b\n    x: \"\\\\\",\n    y: true,\n    z: false\n  \x7d \x7d]" ∧
      s.nested 4 1 (.array ⟨0⟩) = .ok
        "[\x7b a: \x7b\n      x: \"\\\\\",\n      y: true,\n      z: false\n    \x7d \x7d]" := by
  intro inner outer s
  have hparts : s.contents (.array ⟨0⟩) = [.object ⟨1⟩] ∧ s.contents (.object ⟨1⟩) = [.object ⟨0⟩] ∧
      s.contents (.object ⟨0⟩) = [.string "\\", .bool true, .bool false] := ⟨rfl, rfl, rfl⟩
  obtain ⟨harray, houter, hinner⟩ := hparts
  have hall : ∀ w, s.Within (.array ⟨0⟩) w → s.ShowsLine w ∧ w.Short := by
    have leaf : ∀ {w}, s.ShowsLine w → w.Short → s.contents w = [] →
        ∀ u, s.Within w u → s.ShowsLine u ∧ u.Short :=
      fun hline hshort hc => forall_within_iff.mpr ⟨⟨hline, hshort⟩, by simp [hc]⟩
    refine forall_within_iff.mpr ⟨⟨trivial, trivial⟩, ?_⟩
    rw [harray, List.forall_mem_singleton]
    refine forall_within_iff.mpr ⟨⟨?_, trivial⟩, ?_⟩
    · show ∀ key ∈ ["a"], OneLine key
      decide
    rw [houter, List.forall_mem_singleton]
    refine forall_within_iff.mpr ⟨⟨?_, trivial⟩, ?_⟩
    · show ∀ key ∈ ["x", "y", "z"], OneLine key
      decide
    rw [hinner]
    simp only [List.forall_mem_cons]
    exact ⟨leaf (by decide : OneLine "\\") trivial rfl, leaf trivial trivial rfl,
      leaf trivial trivial rfl, nofun⟩
  have hunbroken : s.Unbroken (.array ⟨0⟩) := fun w hw => (hall w hw).1
  have hlegible : s.Legible (.array ⟨0⟩) := fun w hw => (hall w hw).2
  have hcoded : s.Coded := by
    rintro ⟨_ | _ | k⟩ f hf <;> cases hf
  have hends : ¬ s.Endless (.array ⟨0⟩) := by
    intro hendless
    have hpath := hendless.hasPath 4
    have hleaves : s.contents (.string "\\") = [] ∧ s.contents (.bool true) = [] ∧
        s.contents (.bool false) = [] := ⟨rfl, rfl, rfl⟩
    simp [HasPath, harray, houter, hinner, hleaves] at hpath
  have htext : s.nested 4 0 (.array ⟨0⟩) = .ok
      "[\x7b a: \x7b\n    x: \"\\\\\",\n    y: true,\n    z: false\n  \x7d \x7d]" := rfl
  refine ⟨hunbroken, hcoded, hlegible, hends, htext, ?_⟩
  obtain ⟨-, hdeep⟩ := nested_text_is_indented s _ hunbroken
  obtain ⟨text, hfirst, hdepths⟩ := hdeep hcoded hlegible hends 4 (by decide)
  rw [hfirst] at htext
  cases htext
  exact (hdepths 1).trans (by decide)

end Store

end Scriptlet
