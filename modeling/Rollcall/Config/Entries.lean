/-!
# Named entries

A table of settings is a list of names and values, in the order in which the names came up. No
operation brings a name in twice.

Main statement: `get?_insert`, which says what an insertion does to the value of a name.
-/

namespace Rollcall.Config

/-- Values under names, in the order in which the names came up. -/
abbrev Entries (α : Type) := List (String × α)

namespace Entries

variable {α : Type}

def get? (entries : Entries α) (name : String) : Option α :=
  (entries.find? (·.1 = name)).map (·.2)

def contains (entries : Entries α) (name : String) : Bool := entries.any (·.1 = name)

/-- An entry, with another value if it is the one of a name. -/
def revalue (name : String) (value : α) (e : String × α) : String × α :=
  if e.1 = name then (name, value) else e

/-- The entries with a name set. An old value is replaced where it stands, a new name comes last. -/
def insert (entries : Entries α) (name : String) (value : α) : Entries α :=
  if entries.contains name then entries.map (revalue name value) else entries ++ [(name, value)]

def erase (entries : Entries α) (name : String) : Entries α := entries.filter (·.1 ≠ name)

/-- The entries that assignments leave: one set again keeps its place and takes the new value. -/
def ofList (assignments : List (String × α)) : Entries α :=
  assignments.foldl (fun all (name, value) => all.insert name value) []

/-! ### The value of a name -/

theorem get?_cons (e : String × α) (rest : Entries α) (k : String) :
    get? (e :: rest) k = if e.1 = k then some e.2 else rest.get? k := by
  by_cases h : e.1 = k <;> simp [get?, h]

theorem get?_map_revalue (entries : Entries α) (name : String) (value : α) (k : String) :
    get? (entries.map (revalue name value)) k =
      if k = name then (if entries.contains name then some value else none)
      else entries.get? k := by
  induction entries with
  | nil => simp [get?, contains]
  | cons e rest ih =>
    by_cases he : e.1 = name
    · by_cases hk : k = name
      · simp [get?_cons, revalue, contains, he, hk]
      · simp [get?_cons, revalue, he, hk, Ne.symm hk, ih]
    · have hc : contains (e :: rest) name = contains rest name := by simp [contains, he]
      rw [hc, List.map_cons, get?_cons, get?_cons, ih]
      simp only [revalue, he, ↓reduceIte]
      by_cases hk : k = name
      · simp [hk, he]
      · simp [hk]

theorem get?_append_new {entries : Entries α} {name : String} (h : entries.contains name = false)
    (value : α) (k : String) :
    get? (entries ++ [(name, value)]) k = if k = name then some value else entries.get? k := by
  induction entries with
  | nil => simp [get?, eq_comm]
  | cons e rest ih =>
    have ⟨he, hrest⟩ : ¬ e.1 = name ∧ contains rest name = false := by simpa [contains] using h
    by_cases hek : e.1 = k
    · simp [get?_cons, hek, show ¬ k = name from hek ▸ he]
    · simp [get?_cons, hek, ih hrest]

/-- Setting a name changes its value and that of no other. All that is known of layers of settings
rests on this. -/
theorem get?_insert (entries : Entries α) (name : String) (value : α) (k : String) :
    (entries.insert name value).get? k = if k = name then some value else entries.get? k := by
  unfold insert
  split
  · next h => simp [get?_map_revalue, h]
  · next h => exact get?_append_new (by simpa using h) value k

end Entries
end Rollcall.Config
