/-!
# Ordered tables

A table maps names to entries and remembers the order in which the names came in. Scopes and
objects are such tables. Writing to a name that is there replaces its entry in place; a new name
goes to the end.
-/

namespace Scriptlet

/-- Entries under names, in the order of the first writing. -/
abbrev Table (β : Type) := List (String × β)

namespace Table

variable {β : Type}

/-- The entry under a name. -/
def get? : Table β → String → Option β
  | [], _ => none
  | (key, entry) :: rest, name => if key = name then some entry else get? rest name

/-- Is there an entry under the name? -/
def contains (t : Table β) (name : String) : Bool := (t.get? name).isSome

/-- The names, in order. -/
def keys (t : Table β) : List String := t.map (·.1)

/-- Writes an entry: in place if the name is there, at the end otherwise. -/
def put : Table β → String → β → Table β
  | [], name, entry => [(name, entry)]
  | (key, old) :: rest, name, entry =>
    if key = name then (key, entry) :: rest else (key, old) :: put rest name entry

/-- The table without a name. -/
def remove (t : Table β) (name : String) : Table β := t.filter fun pair => pair.1 != name

@[simp] theorem get?_nil (name : String) : get? ([] : Table β) name = none := rfl

/-- Reading after writing. -/
theorem get?_put (t : Table β) (name other : String) (entry : β) :
    (t.put name entry).get? other = if name = other then some entry else t.get? other := by
  induction t with
  | nil => rfl
  | cons pair rest ih =>
    obtain ⟨key, old⟩ := pair
    by_cases h : key = name
    · subst h
      by_cases h2 : key = other <;> simp [put, get?, h2]
    · by_cases h2 : key = other
      · subst h2
        simp [put, get?, h, Ne.symm h]
      · simp [put, get?, h, h2, ih]

/-- Writing keeps the names in order and adds a new one at the end. -/
theorem keys_put (t : Table β) (name : String) (entry : β) :
    (t.put name entry).keys = if t.contains name then t.keys else t.keys ++ [name] := by
  induction t with
  | nil => rfl
  | cons pair rest ih =>
    obtain ⟨key, old⟩ := pair
    by_cases h : key = name
    · simp [put, keys, contains, get?, h]
    · simp only [contains, keys] at ih
      by_cases h2 : (get? rest name).isSome = true <;> simp_all [put, keys, contains, get?]

/-- A name has an entry exactly when it is among the names. -/
theorem contains_iff_mem_keys (t : Table β) (name : String) :
    t.contains name = true ↔ name ∈ t.keys := by
  induction t with
  | nil => simp [contains, keys]
  | cons pair rest ih =>
    obtain ⟨key, old⟩ := pair
    by_cases h : key = name
    · simp [contains, keys, get?, h]
    · simp only [contains, keys] at ih
      simp [contains, keys, get?, h, ih, Ne.symm h]

end Table

end Scriptlet
