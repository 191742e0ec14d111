import Mathlib.Data.Finset.Card
import Mathlib.Order.WellFounded
import Scriptlet.Proofs.Depth
import Scriptlet.Proofs.Number.Integer
import Scriptlet.Proofs.Store.Lasting
import Scriptlet.Store.Rendering

/-!
# What a value contains, and whether it can be shown

An array contains its elements, an object the values of its own properties; functions contain
nothing, whatever properties they have. Arrays and objects are cells that anybody may fill, so a
value may contain itself, at any distance.

* `Store.HasPath` : one can go inward so many times. A text needs a level of nesting for each of
  them, so a value has a text exactly when it is less deep than that and all its integers can be
  written (`tells_nested`).
* `Store.Endless` : one can go inward for ever. As there are only so many cells, this is so as soon
  as one can go inward once for each of them and once more (`HasPath.endless`).
* `Store.HasText` : a value has the text from some number of levels on. It has one if it is not
  endless and all its integers can be written (`exists_hasText_iff`), and with fewer levels it has
  the same one or none (`HasText.eq_or_overflow`).
-/

namespace Scriptlet

open Number

/-- Not an integer with too many digits. -/
def Value.Short : Value → Prop
  | .primitive (.int n) _ => (Integer.digits n.natAbs).length ≤ Integer.digitLimit
  | _ => True

namespace Store

open Filter

variable {s s' : Store} {v w : Value} {n : Nat}

/-- The values that are part of a value: the elements of an array, what the own properties of an
object hold. A function has no parts. -/
def contents (s : Store) : Value → List Value
  | .array id => (s.elements id).toList
  | .object id =>
    match s.function? id with
    | some _ => []
    | none => (s.properties id).map (·.2.value)
  | _ => []

/-- One can go from a value into its contents `n` times. -/
def HasPath (s : Store) : Nat → Value → Prop
  | 0, _ => True
  | n + 1, v => ∃ w ∈ s.contents v, s.HasPath n w

/-- One can go from a value into its contents for ever. -/
def Endless (s : Store) (v : Value) : Prop :=
  ∃ path : Nat → Value, path 0 = v ∧ ∀ k, path (k + 1) ∈ s.contents (path k)

/-- The one value is the other or part of it, at any distance. -/
def Within (s : Store) : Value → Value → Prop := Relation.ReflTransGen fun v w => w ∈ s.contents v

/-- All integers in a value can be written. -/
def Legible (s : Store) (v : Value) : Prop := ∀ w, s.Within v w → w.Short

/-- The number of cells that contain anything. -/
def cells (s : Store) : Nat := s.objects.size + s.arrays.size

/-! ## Ways inward -/

theorem Endless.hasPath : ∀ {v : Value} (n : Nat), s.Endless v → s.HasPath n v
  | _, 0, _ => trivial
  | _, n + 1, ⟨path, h0, hpath⟩ => by
    refine ⟨path 1, h0 ▸ hpath 0, ?_⟩
    exact hasPath n ⟨fun k => path (k + 1), rfl, fun k => hpath (k + 1)⟩

/-- Where every value of a kind contains another of the kind, there is no end. -/
theorem endless_of_invariant {P : Value → Prop} (hv : P v)
    (step : ∀ w, P w → ∃ u ∈ s.contents w, P u) : s.Endless v := by
  have hacc : ¬ Acc (fun w v => w ∈ s.contents v) v := by
    intro hacc
    induction hacc with
    | intro w _ ih =>
      obtain ⟨u, hu, hP⟩ := step w hv
      exact ih u hu hP
  exact not_acc_iff_exists_descending_chain.mp hacc

/-- The values on a way inward. -/
theorem HasPath.exists_path : ∀ {n : Nat} {v : Value}, s.HasPath n v →
    ∃ path : Nat → Value, path 0 = v ∧ ∀ k < n, path (k + 1) ∈ s.contents (path k)
  | 0, v, _ => ⟨fun _ => v, rfl, by omega⟩
  | n + 1, v, ⟨w, hw, h⟩ => by
    obtain ⟨path, h0, hpath⟩ := exists_path h
    refine ⟨fun k => k.casesOn v path, rfl, ?_⟩
    intro k hk
    cases k with
    | zero =>
      show path 0 ∈ s.contents v
      rwa [h0]
    | succ k => exact hpath k (by omega)

/-- All values that contain anything. -/
def containers (s : Store) : Finset Value :=
  (Finset.range s.objects.size).image (fun i => .object ⟨i⟩) ∪
    (Finset.range s.arrays.size).image (fun i => .array ⟨i⟩)

theorem card_containers_le (s : Store) : s.containers.card ≤ s.cells := by
  refine (Finset.card_union_le _ _).trans ?_
  refine Nat.add_le_add ?_ ?_
  · exact Finset.card_image_le.trans (Finset.card_range _).le
  · exact Finset.card_image_le.trans (Finset.card_range _).le

/-- What is not among the cells contains nothing. -/
theorem mem_containers (h : w ∈ s.contents v) : v ∈ s.containers := by
  rw [containers, Finset.mem_union, Finset.mem_image, Finset.mem_image]
  cases v with
  | undefined | primitive | foreign => cases h
  | array id =>
    refine .inr ⟨id.index, Finset.mem_range.mpr ?_, rfl⟩
    by_contra hid
    have helements : s.elements id = #[] := by
      rw [elements, Array.getElem?_eq_none (by omega)]
      rfl
    rw [contents, helements] at h
    cases h
  | object id =>
    refine .inl ⟨id.index, Finset.mem_range.mpr ?_, rfl⟩
    by_contra hid
    rw [contents] at h
    split at h
    · cases h
    · rw [properties_of_not_has hid] at h
      cases h

/-- A way inward that comes back to where it has been has no end. -/
theorem endless_of_loop {path : Nat → Value} {i j : Nat} (hij : i < j)
    (hpath : ∀ k < j, path (k + 1) ∈ s.contents (path k)) (heq : path i = path j) :
    s.Endless (path 0) := by
  refine endless_of_invariant (P := fun w => ∃ k < j, path k = w) ⟨0, by omega, rfl⟩ ?_
  rintro w ⟨k, hk, rfl⟩
  refine ⟨path (k + 1), hpath k hk, ?_⟩
  by_cases hlast : k + 1 = j
  · exact ⟨i, hij, by rw [heq, hlast]⟩
  · exact ⟨k + 1, by omega, rfl⟩

/-- A way inward that is longer than there are cells comes back to one of them. -/
theorem HasPath.endless (h : s.HasPath n v) (hn : s.cells < n) : s.Endless v := by
  obtain ⟨path, rfl, hpath⟩ := h.exists_path
  have loop : ∀ {i j}, i < j → j < n → path i = path j → s.Endless (path 0) :=
    fun hij hj heq => endless_of_loop hij (fun k hk => hpath k (by omega)) heq
  have hcard : s.containers.card < (Finset.range n).card := by
    rw [Finset.card_range]
    exact s.card_containers_le.trans_lt hn
  obtain ⟨i, hi, j, hj, hne, heq⟩ := Finset.exists_ne_map_eq_of_card_lt_of_maps_to hcard
    fun k hk => mem_containers (hpath k (Finset.mem_range.mp hk))
  rw [Finset.mem_range] at hi hj
  rcases Nat.lt_or_gt_of_ne hne with hij | hji
  · exact loop hij hj heq
  · exact loop hji hi heq.symm

/-! ## Texts -/

/-- What holds of a value and of all that is in it holds of the value, and of all that is in its
contents. -/
theorem forall_within_iff {P : Value → Prop} :
    (∀ w, s.Within v w → P w) ↔ P v ∧ ∀ w ∈ s.contents v, ∀ u, s.Within w u → P u := by
  constructor
  · intro h
    exact ⟨h v .refl, fun w hw u hu => h u (.head hw hu)⟩
  · rintro ⟨hv, hcontents⟩ u hu
    rcases hu.cases_head with rfl | ⟨w, hw, hwu⟩
    · exact hv
    · exact hcontents w hw u hwu

theorem legible_iff : s.Legible v ↔ v.Short ∧ ∀ w ∈ s.contents v, s.Legible w := forall_within_iff

/-- A value is less deep than the levels of nesting, and all integers in it can be written. -/
def Showable (s : Store) (levels : Nat) (v : Value) : Prop := ¬ s.HasPath levels v ∧ s.Legible v

/-- What is in the way of a text, and the fault that says so. -/
inductive Unshowable (s : Store) (levels : Nat) (v : Value) : Fault → Prop
  | deep (h : s.HasPath levels v) : Unshowable s levels v .overflow
  | long (h : ¬ s.Legible v) : Unshowable s levels v .digitsToText

/-- An answer is right about whether there is a text. -/
def Tells {α : Type} (s : Store) (levels : Nat) (v : Value) : Except Fault α → Prop
  | .ok _ => s.Showable levels v
  | .error fault => s.Unshowable levels v fault

theorem showable_succ_iff :
    s.Showable (n + 1) v ↔ v.Short ∧ ∀ w ∈ s.contents v, s.Showable n w := by
  rw [Showable, legible_iff, HasPath, not_exists]
  constructor
  · rintro ⟨hpath, hv, hlegible⟩
    exact ⟨hv, fun w hw => ⟨fun h => hpath w ⟨hw, h⟩, hlegible w hw⟩⟩
  · rintro ⟨hv, h⟩
    exact ⟨fun w hw => (h w hw.1).1 hw.2, hv, fun w hw => (h w hw).2⟩

theorem Unshowable.not_showable {fault : Fault} (h : s.Unshowable n v fault) :
    ¬ s.Showable n v := by
  cases h with
  | deep hpath => exact fun h => h.1 hpath
  | long hlong => exact fun h => hlong h.2

theorem Unshowable.kind_ne_type {fault : Fault} (h : s.Unshowable n v fault) :
    fault.kind ≠ .type := by
  cases h <;> decide

/-- What is wrong with a part is wrong with the whole, which is one level deeper. -/
theorem Unshowable.of_mem {fault : Fault} (h : s.Unshowable n w fault) (hw : w ∈ s.contents v) :
    s.Unshowable (n + 1) v fault := by
  cases h with
  | deep hpath => exact .deep ⟨w, hw, hpath⟩
  | long hlong => exact .long fun h => hlong ((legible_iff.mp h).2 w hw)

theorem exists_ok_iff_of_tells {α : Type} {answer : Except Fault α} (h : s.Tells n v answer) :
    (∃ a, answer = .ok a) ↔ s.Showable n v := by
  cases answer with
  | ok a => exact iff_of_true ⟨a, rfl⟩ h
  | error fault =>
    refine iff_of_false ?_ h.not_showable
    rintro ⟨a, ha⟩
    cases ha

/-- Where there is no text, the answer is a fault that says why. -/
theorem exists_error_of_tells {α : Type} {answer : Except Fault α} (h : s.Tells n v answer)
    (hnot : ¬ s.Showable n v) : ∃ fault, answer = .error fault ∧ s.Unshowable n v fault := by
  cases answer with
  | ok a => exact absurd h hnot
  | error fault => exact ⟨fault, rfl, h⟩

theorem tells_map {α β : Type} {answer : Except Fault α} (f : α → β) (h : s.Tells n v answer) :
    s.Tells n v (f <$> answer) := by
  cases answer <;> exact h

/-- The parts of a value are shown one after the other, so the first one that cannot be shown is
what the whole fails with. -/
theorem tells_mapM {α β : Type} {f : α → Except Fault β} {part : α → Value} :
    ∀ {items : List α}, (∀ a ∈ items, s.Tells n (part a) (f a)) →
      match items.mapM f with
      | .ok _ => ∀ a ∈ items, s.Showable n (part a)
      | .error fault => ∃ a ∈ items, s.Unshowable n (part a) fault
  | [], _ => by simp [Pure.pure, Except.pure]
  | a :: rest, h => by
    have ha := h a (by simp)
    have hrest := tells_mapM fun b (hb : b ∈ rest) => h b (by simp [hb])
    rw [List.mapM_cons]
    cases hfa : f a with
    | error fault =>
      rw [hfa] at ha
      exact ⟨a, by simp, ha⟩
    | ok b =>
      rw [hfa] at ha
      cases hfrest : rest.mapM f with
      | error fault =>
        rw [hfrest] at hrest
        obtain ⟨c, hc, hfault⟩ := hrest
        exact ⟨c, by simp [hc], hfault⟩
      | ok bs =>
        rw [hfrest] at hrest
        exact List.forall_mem_cons.mpr ⟨ha, hrest⟩

/-- A container is as showable as its parts. -/
theorem tells_of_contents {α β : Type} {f : α → Except Fault β} {part : α → Value}
    {items : List α} (hshort : v.Short) (hcontents : s.contents v = items.map part)
    (h : ∀ a ∈ items, s.Tells n (part a) (f a)) : s.Tells (n + 1) v (items.mapM f) := by
  have hparts := tells_mapM h
  cases hf : items.mapM f with
  | ok bs =>
    rw [hf] at hparts
    refine showable_succ_iff.mpr ⟨hshort, ?_⟩
    rw [hcontents, List.forall_mem_map]
    exact hparts
  | error fault =>
    rw [hf] at hparts
    obtain ⟨a, ha, hfault⟩ := hparts
    exact hfault.of_mem (hcontents ▸ List.mem_map_of_mem ha)

/-- A value without parts can be shown if it is short. -/
theorem tells_leaf {α : Type} {a : α} (hshort : v.Short) (hcontents : s.contents v = []) :
    s.Tells (n + 1) v (.ok a) := by
  refine showable_succ_iff.mpr ⟨hshort, ?_⟩
  simp [hcontents]

theorem tells_integerText (i : Int) (box : Nat) :
    s.Tells (n + 1) (.primitive (.int i) box) (integerText i) := by
  rw [integerText]
  have hiff := Integer.isSome_text?_iff (n := i)
  cases ht : Integer.text? i with
  | some text =>
    rw [ht] at hiff
    exact tells_leaf (hiff.mp rfl) rfl
  | none =>
    rw [ht] at hiff
    exact .long fun h => Bool.false_ne_true (hiff.mpr (h _ .refl))

theorem tells_text (p : Primitive) (box : Nat) : s.Tells (n + 1) (.primitive p box) p.text := by
  cases p with
  | int i => exact tells_integerText i box
  | float | string | char | bool => exact tells_leaf trivial rfl

theorem tells_nestedText (p : Primitive) (box : Nat) :
    s.Tells (n + 1) (.primitive p box) p.nestedText := by
  cases p with
  | int i => exact tells_integerText i box
  | float | string | char | bool => exact tells_leaf trivial rfl

/-- A function is a leaf; one in name only does not occur. -/
theorem tells_function (hs : s.Coded) {id : ObjectId} {f : Function}
    (hf : s.function? id = some f) : s.Tells (n + 1) (.object id) f.text := by
  have hfits := hs id f hf
  have hcontents : s.contents (.object id) = [] := by rw [contents, hf]
  obtain ⟨name, isExported, callable⟩ := f
  cases callable with
  | closure c => exact tells_leaf trivial hcontents
  | native action arity => cases arity <;> exact tells_leaf trivial hcontents
  | hollow => exact hfits.elim

/-- A text is found exactly where there is one, by induction over the levels of nesting. -/
theorem tells_nested (hs : s.Coded) : ∀ (levels depth : Nat) (v : Value),
    s.Tells levels v (s.nested levels depth v)
  | 0, _, _ => .deep trivial
  | levels + 1, depth, v => by
    cases v with
    | undefined => exact tells_leaf trivial rfl
    | foreign content box => exact tells_leaf trivial rfl
    | primitive p box => exact tells_nestedText p box
    | array id =>
      refine tells_map _ (tells_of_contents trivial (List.map_id _).symm ?_)
      intro element _
      exact tells_nested hs levels depth element
    | object id =>
      rw [nested]
      dsimp only
      cases hf : s.function? id with
      | some f => exact tells_function hs hf
      | none =>
        have hcontents : s.contents (.object id) = (s.properties id).map (·.2.value) := by
          rw [contents, hf]
        refine tells_map _ (tells_of_contents trivial hcontents ?_)
        rintro ⟨key, p⟩ _
        exact tells_map _ (tells_nested hs levels (depth + 1) p.value)

theorem tells_format (hs : s.Coded) (levels : Nat) (v : Value) :
    s.Tells (levels + 1) v (s.format (levels + 1) v) := by
  cases v with
  | primitive p box => exact tells_text p box
  | _ => exact tells_nested hs (levels + 1) 0 _

/-! ## How many levels are enough -/

/-- Where every item fails with a fault or gives what it gives elsewhere, so does the list. -/
theorem mapM_eq_or {ε α β : Type} {f g : α → Except ε β} {e : ε} :
    ∀ {items : List α}, (∀ a ∈ items, f a = .error e ∨ g a = f a) →
      items.mapM f = .error e ∨ items.mapM g = items.mapM f
  | [], _ => .inr rfl
  | a :: rest, h => by
    have hrest := mapM_eq_or fun b (hb : b ∈ rest) => h b (List.mem_cons_of_mem a hb)
    rw [List.mapM_cons, List.mapM_cons]
    rcases h a List.mem_cons_self with hfa | hga
    · exact .inl (by rw [hfa]; rfl)
    · rw [hga]
      cases f a with
      | error f => exact .inr rfl
      | ok b =>
        rcases hrest with hfrest | hgrest
        · exact .inl (by rw [hfrest]; rfl)
        · exact .inr (by rw [hgrest])

/-- Going on with an answer keeps it a failure or the same. -/
theorem bind_eq_or {ε α β : Type} {answer answer' : Except ε α} {e : ε} (f : α → Except ε β)
    (h : answer = .error e ∨ answer' = answer) :
    answer >>= f = .error e ∨ answer' >>= f = answer >>= f := by
  rcases h with rfl | rfl
  · exact .inl rfl
  · exact .inr rfl

/-- One more level makes a difference only where the levels are exhausted. -/
theorem nested_succ : ∀ (levels depth : Nat) (v : Value),
    s.nested levels depth v = .error .overflow ∨
      s.nested (levels + 1) depth v = s.nested levels depth v
  | 0, _, _ => .inl rfl
  | levels + 1, depth, v => by
    cases v with
    | undefined | primitive | foreign => exact .inr rfl
    | array id => exact bind_eq_or _ (mapM_eq_or fun w _ => nested_succ levels depth w)
    | object id =>
      rw [nested, nested]
      dsimp only
      cases hf : s.function? id with
      | some f => exact .inr rfl
      | none =>
        exact bind_eq_or _ (mapM_eq_or fun entry _ =>
          bind_eq_or _ (nested_succ levels (depth + 1) entry.2.value))

theorem format_succ (levels : Nat) (v : Value) : s.format levels v = .error .overflow ∨
    s.format (levels + 1) v = s.format levels v := by
  cases v with
  | primitive => exact .inr rfl
  | _ => exact nested_succ levels 0 _

/-- More levels make a difference only where the levels are exhausted. -/
theorem format_of_le {levels levels' : Nat} (hle : levels ≤ levels')
    (h : s.format levels v ≠ .error .overflow) : s.format levels' v = s.format levels v := by
  induction hle with
  | refl => rfl
  | @step levels' _ ih => exact ((format_succ levels' v).resolve_left (ih ▸ h)).trans ih

/-- From some number of levels on the value has the text. -/
def HasText (s : Store) (v : Value) (text : String) : Prop :=
  ∀ᶠ levels in atTop, s.format levels v = .ok text

/-- An answer other than that the levels are exhausted is the answer from there on. -/
theorem eventually_format {levels : Nat} (h : s.format levels v ≠ .error .overflow) :
    ∀ᶠ levels' in atTop, s.format levels' v = s.format levels v :=
  eventually_atTop.mpr ⟨levels, fun _ hle => format_of_le hle h⟩

/-- A value with a text has no other one: with fewer levels they may be exhausted, and that is
all. -/
theorem HasText.eq_or_overflow {text : String} (h : s.HasText v text) (levels : Nat) :
    s.format levels v = .ok text ∨ s.format levels v = .error .overflow := by
  by_cases hover : s.format levels v = .error .overflow
  · exact .inr hover
  · obtain ⟨levels', heq, htext⟩ := ((eventually_format hover).and h).exists
    exact .inl (heq.symm.trans htext)

/-- A text that there is with one number of levels is the text of the value. -/
theorem hasText_of_format {levels : Nat} {text : String} (h : s.format levels v = .ok text) :
    s.HasText v text := by
  have hover : s.format levels v ≠ .error .overflow := by
    rw [h]
    nofun
  exact (eventually_format hover).mono fun _ heq => heq.trans h

/-- With any number of levels the answer is right, or they are exhausted. -/
theorem overflow_or_tells (hs : s.Coded) (levels : Nat) (v : Value) :
    s.format levels v = .error .overflow ∨ s.Tells (levels + 1) v (s.format levels v) := by
  refine (format_succ levels v).imp_right fun heq => ?_
  rw [← heq]
  exact tells_format hs levels v

/-- A value has a text exactly if there is an end to it and all integers in it can be written. -/
theorem exists_hasText_iff (hs : s.Coded) :
    (∃ text, s.HasText v text) ↔ ¬ s.Endless v ∧ s.Legible v := by
  constructor
  · rintro ⟨text, h⟩
    obtain ⟨levels, htext⟩ := h.exists
    have hanswer := overflow_or_tells hs levels v
    rw [htext] at hanswer
    obtain ⟨hpath, hlegible⟩ : s.Showable (levels + 1) v := hanswer.resolve_left nofun
    exact ⟨fun hendless => hpath (hendless.hasPath _), hlegible⟩
  · rintro ⟨hends, hlegible⟩
    have hshowable : s.Showable (s.cells + 1) v :=
      ⟨fun hpath => hends (hpath.endless (Nat.lt_succ_self _)), hlegible⟩
    obtain ⟨text, htext⟩ := (exists_ok_iff_of_tells (tells_format hs s.cells v)).mpr hshowable
    exact ⟨text, hasText_of_format htext⟩

/-- What has no text fails with any number of levels: they are exhausted, or an integer is too long
to be written. -/
theorem format_of_endless_or (hs : s.Coded) (h : s.Endless v ∨ ¬ s.Legible v) (levels : Nat) :
    s.format levels v = .error .overflow ∨
      s.format levels v = .error .digitsToText ∧ ¬ s.Legible v := by
  have hnot : ¬ s.Showable (levels + 1) v := by
    rintro ⟨hpath, hlegible⟩
    rcases h with hendless | hlong
    · exact hpath (hendless.hasPath _)
    · exact hlong hlegible
  rcases overflow_or_tells hs levels v with hover | htells
  · exact .inl hover
  · obtain ⟨fault, hf, hwhy⟩ := exists_error_of_tells htells hnot
    cases hwhy with
    | deep => exact .inl hf
    | long hlong => exact .inr ⟨hf, hlong⟩

/-- What has an end and an integer that is too long fails for that, from some number of levels
on. -/
theorem eventually_digitsToText (hs : s.Coded) (hends : ¬ s.Endless v) (hlong : ¬ s.Legible v) :
    ∀ᶠ levels in atTop, s.format levels v = .error .digitsToText := by
  have hdigits : s.format (s.cells + 1) v = .error .digitsToText := by
    obtain ⟨fault, hf, hwhy⟩ := exists_error_of_tells (tells_format hs s.cells v) fun h => hlong h.2
    cases hwhy with
    | deep hpath => exact absurd (hpath.endless (Nat.lt_succ_self _)) hends
    | long => exact hf
  have hover : s.format (s.cells + 1) v ≠ .error .overflow := by
    rw [hdigits]
    nofun
  exact (eventually_format hover).mono fun _ heq => heq.trans hdigits

/-- A value that is only too deep is refused as such. -/
theorem format_eq_overflow (hs : s.Coded) {levels : Nat} (hdeep : s.HasPath (levels + 1) v)
    (hlegible : s.Legible v) : s.format (levels + 1) v = .error .overflow := by
  obtain ⟨fault, hf, hwhy⟩ := exists_error_of_tells (tells_format hs levels v) fun h => h.1 hdeep
  cases hwhy with
  | deep => exact hf
  | long hlong => exact absurd hlegible hlong

/-! ## What a text does not depend on -/

/-- The stores have the same elements of arrays, the same functions, and the same properties of all
objects that are not functions. -/
structure SameData (s s' : Store) : Prop where
  elements : ∀ id, s'.elements id = s.elements id
  function? : ∀ id, s'.function? id = s.function? id
  properties : ∀ id, s.function? id = none → s'.properties id = s.properties id

theorem SameData.nested_eq (h : s.SameData s') : ∀ (levels depth : Nat) (v : Value),
    s'.nested levels depth v = s.nested levels depth v
  | 0, _, _ => rfl
  | levels + 1, depth, v => by
    cases v with
    | undefined | primitive | foreign => rfl
    | array id =>
      rw [nested, nested, h.elements id, funext fun w => h.nested_eq levels depth w]
    | object id =>
      rw [nested, nested]
      dsimp only
      rw [h.function? id]
      cases hf : s.function? id with
      | some f => rfl
      | none =>
        dsimp only
        rw [h.properties id hf]
        simp only [h.nested_eq levels (depth + 1)]

theorem SameData.format_eq (h : s.SameData s') (levels : Nat) (v : Value) :
    s'.format levels v = s.format levels v := by
  cases v with
  | primitive => rfl
  | _ => exact h.nested_eq levels 0 _

theorem sameData_setPrototype (s : Store) (id : ObjectId) (prototype : Option ObjectId) :
    s.SameData (s.setPrototype id prototype) where
  elements _ := rfl
  function? other := by
    rw [function?, objectAt?_setPrototype, function?]
    split
    · cases s.objectAt? other <;> rfl
    · rfl
  properties other _ := properties_setPrototype s id other prototype

theorem sameData_setProperty {id : ObjectId} (hf : (s.function? id).isSome = true) (name : String)
    (p : Property) : s.SameData (s.setProperty id name p) where
  elements _ := rfl
  function? other := by
    rw [function?, objectAt?_setProperty, function?]
    split
    · cases s.objectAt? other <;> rfl
    · rfl
  properties other hother := by
    refine properties_setProperty_of_ne s ?_ name p
    rintro rfl
    rw [hother] at hf
    cases hf

end Store

end Scriptlet
