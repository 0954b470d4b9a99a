/-!
# Splitting at a separator

`splitOn sep` cuts a list at every occurrence of the separator, and `cut` at the first one.
`replace` puts something else in the place of every occurrence of a part.
-/

namespace Rollcall.Text

variable {α : Type} [DecidableEq α]

/-- The parts between the occurrences of a separator, of which there is one more than separators.
Parts may be empty. -/
def splitOn (sep : α) : List α → List (List α)
  | [] => [[]]
  | x :: xs =>
    if x = sep then [] :: splitOn sep xs
    else
      match splitOn sep xs with
      | [] => [[x]]
      | part :: parts => (x :: part) :: parts

/-- What stands before the first separator, and what stands behind it if there is one. -/
def cut (sep : α) (xs : List α) : List α × Option (List α) :=
  match xs.dropWhile (· ≠ sep) with
  | [] => (xs, none)
  | _ :: rest => (xs.takeWhile (· ≠ sep), some rest)

/-- Replaces a part from left to right, once so many items of the last occurrence are passed. An
empty part occurs nowhere. -/
def replaceBehind (part other : List α) : Nat → List α → List α
  | _, [] => []
  | left + 1, _ :: xs => replaceBehind part other left xs
  | 0, x :: xs =>
    if part ≠ [] ∧ part.isPrefixOf (x :: xs) then
      other ++ replaceBehind part other (part.length - 1) xs
    else x :: replaceBehind part other 0 xs

/-- The list with something else in the place of every occurrence of a part, from the left and
without overlap. -/
def replace (part other xs : List α) : List α := replaceBehind part other 0 xs

end Rollcall.Text
