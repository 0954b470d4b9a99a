import Rollcall.Config.Entries
import Rollcall.Duration

/-!
# Settings

A setting is a tree: a table of named settings, a list, or a single value. Settings come in layers,
and a later layer overrides an earlier one name by name, so that an override touches only what it
names.

    base.merge layer   the settings of two layers, those of `layer` counting where both have one
    s.record? names    the settings of a record, by name or by place
    s.text?, s.nat?    a single value of a kind
-/

namespace Rollcall.Config

/-- A setting, as it was written. Nothing is known of it but its kind until a reader asks for a
kind. -/
inductive Setting where
  | text (s : String)
  | integer (n : Int)
  /-- A number that is not an integer; what it is never matters. -/
  | real
  | flag (b : Bool)
  | list (items : List Setting)
  | table (entries : List (String × Setting))
  deriving Repr

namespace Setting

mutual

/-- Lays one setting over another. Tables join name by name, and anything else replaces what it is
laid on, a table included. -/
def merge (base : Setting) : Setting → Setting
  | .table layer =>
    match base with
    | .table entries => .table (mergeEntries entries layer)
    | _ => .table layer
  | layer => layer

/-- Lays the entries of one table over those of another, one after the other. Names that both have
are joined, and new ones come last. -/
def mergeEntries (entries : Entries Setting) : Entries Setting → Entries Setting
  | [] => entries
  | (name, s) :: rest =>
    let merged := match entries.get? name with
      | some old => merge old s
      | none => s
    mergeEntries (entries.insert name merged) rest

end

def nest : List String → Setting → Setting
  | [], s => s
  | name :: rest, s => .table [(name, nest rest s)]

/-- The settings of a record: a table gives them by name and may hold others, a list gives them by
place, in the order of the names. -/
def record? (names : List String) : Setting → Option (String → Option Setting)
  | .table entries => some (Entries.get? entries)
  | .list items => some fun name => items[names.idxOf name]?
  | _ => none

/-- A field that may be left out. -/
def orDefault {α : Type} (default : α) (read : Setting → Option α) : Option Setting → Option α
  | none => some default
  | some s => read s

def text? : Setting → Option String
  | .text s => some s
  | _ => none

/-- A setting that is a number of 64 bits without sign. A negative number is not one, and a real is
not one even if it is whole. -/
def nat? : Setting → Option Nat
  | .integer n => if 0 ≤ n && n < 18446744073709551616 then some n.toNat else none
  | _ => none

/-- A setting that is a span of time in whole seconds. -/
def seconds? (s : Setting) : Option Duration := s.nat?.map .ofSeconds

end Setting
end Rollcall.Config
