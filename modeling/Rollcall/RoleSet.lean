import Rollcall.Role

/-!
# Sets of roles

A set of roles is kept as the strictly increasing list of its members, so two sets with the same
members are equal and are written alike.
-/

namespace Rollcall

/-- A finite set of roles, as the strictly increasing list of its members. The proof of that is part
of the set, so no reader and no writer has to sort anything. -/
structure RoleSet where
  toList : List Role := []
  sorted : toList.Pairwise Role.Before := by exact List.Pairwise.nil
  deriving Repr, DecidableEq

namespace RoleSet

/-- Puts a role into its place in an increasing list, unless it is there already. -/
def insertSorted (r : Role) : List Role → List Role
  | [] => [r]
  | x :: rest =>
    if r.Before x then r :: x :: rest
    else if r = x then x :: rest
    else x :: insertSorted r rest

theorem mem_insertSorted {r y : Role} {xs : List Role} :
    y ∈ insertSorted r xs ↔ y = r ∨ y ∈ xs := by
  induction xs with
  | nil => simp [insertSorted]
  | cons x rest ih =>
    unfold insertSorted
    split
    · simp
    · split
      · next h => subst h; simp
      · simp only [List.mem_cons, ih]
        constructor
        · rintro (h | h | h) <;> simp [h]
        · rintro (h | h | h) <;> simp [h]

theorem insertSorted_sorted (r : Role) {xs : List Role} (h : xs.Pairwise Role.Before) :
    (insertSorted r xs).Pairwise Role.Before := by
  induction xs with
  | nil => simp [insertSorted]
  | cons x rest ih =>
    have ⟨hx, hrest⟩ := List.pairwise_cons.1 h
    unfold insertSorted
    split
    · next hr =>
      refine List.pairwise_cons.2 ⟨fun y hy => ?_, h⟩
      rcases List.mem_cons.1 hy with rfl | hy
      · exact hr
      · exact Role.before_trans hr (hx y hy)
    · split
      · exact h
      · next hr hne =>
        refine List.pairwise_cons.2 ⟨fun y hy => ?_, ih hrest⟩
        rcases mem_insertSorted.1 hy with rfl | hy
        · exact Role.before_of_not hr hne
        · exact hx y hy

/-- The set with one more member. -/
def insert (s : RoleSet) (r : Role) : RoleSet :=
  ⟨insertSorted r s.toList, insertSorted_sorted r s.sorted⟩

def ofList (rs : List Role) : RoleSet := rs.foldl insert {}

def contains (s : RoleSet) (r : Role) : Bool := s.toList.contains r

def isEmpty (s : RoleSet) : Bool := s.toList.isEmpty

theorem mem_insert {s : RoleSet} {r y : Role} : y ∈ (s.insert r).toList ↔ y = r ∨ y ∈ s.toList :=
  mem_insertSorted

/-- A set of roles is an array of names in JSON. It is read in any order and with any repetitions,
and written in order. -/
def ofJson? (v : Json.Value) : Option RoleSet := (v.list? Role.ofJson?).map ofList

def toJson (s : RoleSet) : Json.Value := .array (s.toList.map Role.toJson)

end RoleSet
end Rollcall
