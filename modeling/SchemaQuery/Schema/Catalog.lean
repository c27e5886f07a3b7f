/-!
# Catalogs

A catalog is a list of entries with pairwise distinct names.  It keeps the order in which
entries were added and finds an entry by its name.

## Main definitions

* `Catalog` - the list, with the proof that names are distinct.
* `Catalog.find?`, `Catalog.contains`, `Catalog.names` - look-ups.
* `Catalog.add?` - adds an entry at the end, unless its name is taken.

## Main statements

* `Catalog.find?_eq_some_iff` - an entry is found under its own name and no other.
-/

namespace SchemaQuery

/-- Entries with pairwise distinct names, in the order they were added. -/
structure Catalog (α : Type) (key : α → String) where
  entries : List α
  distinct : (entries.map key).Nodup

namespace Catalog

variable {α : Type} {key : α → String}

/-- The catalog without entries. -/
def empty : Catalog α key := ⟨[], List.nodup_nil⟩

@[simp] theorem entries_empty : (empty : Catalog α key).entries = [] := rfl

/-- The names in the order of the entries. -/
def names (c : Catalog α key) : List String := c.entries.map key

/-- The entry of a name. -/
def find? (c : Catalog α key) (name : String) : Option α := c.entries.find? (key · = name)

/-- Whether there is an entry of a name. -/
def contains (c : Catalog α key) (name : String) : Bool := (c.find? name).isSome

/-- The number of entries. -/
def size (c : Catalog α key) : Nat := c.entries.length

theorem find?_eq_some_iff {c : Catalog α key} {name : String} {x : α} :
    c.find? name = some x ↔ x ∈ c.entries ∧ key x = name := by
  obtain ⟨entries, distinct⟩ := c
  simp only [find?]
  induction entries with
  | nil => simp
  | cons y rest ih =>
    have split := List.pairwise_cons.1 distinct
    by_cases same : key y = name
    · subst same
      simp only [List.find?_cons, decide_true, Option.some.injEq, List.mem_cons]
      constructor
      · rintro rfl; simp
      · rintro ⟨rfl | mem, same⟩
        · rfl
        · exact absurd same.symm (split.1 _ (List.mem_map_of_mem mem))
    · simp only [List.find?_cons, same, decide_false, List.mem_cons]
      rw [ih split.2]
      constructor
      · rintro ⟨mem, found⟩; exact ⟨.inr mem, found⟩
      · rintro ⟨rfl | mem, found⟩
        · exact absurd found same
        · exact ⟨mem, found⟩

theorem contains_iff {c : Catalog α key} {name : String} :
    c.contains name = true ↔ name ∈ c.names := by
  simp only [contains, Option.isSome_iff_exists, find?_eq_some_iff, names, List.mem_map]

/-- Adds an entry at the end, unless its name is taken. -/
def add? (c : Catalog α key) (x : α) : Option (Catalog α key) :=
  if taken : key x ∈ c.names then none
  else some ⟨c.entries ++ [x], by
    simp only [List.map_append, List.map_cons, List.map_nil, List.Nodup, List.pairwise_append]
    refine ⟨c.distinct, by simp, fun name mem other single => ?_⟩
    rw [List.mem_singleton.1 single]
    exact fun same => taken (same ▸ mem)⟩

theorem entries_add? {c d : Catalog α key} {x : α} (h : c.add? x = some d) :
    d.entries = c.entries ++ [x] := by
  unfold add? at h
  split at h
  · cases h
  · exact Option.some.inj h ▸ rfl

/-- An entry is refused exactly when its name is taken. -/
theorem add?_eq_none_iff {c : Catalog α key} {x : α} : c.add? x = none ↔ key x ∈ c.names := by
  unfold add?
  split <;> simp_all

end Catalog

end SchemaQuery
