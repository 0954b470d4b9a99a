import Rollcall.Config.Inline
import Rollcall.Text.Split

/-!
# Settings in the environment

A variable whose name begins with a prefix is a setting: the rest of the name, in lower case, is its
place, and the value is read as an inline setting. Names and prefixes are compared without regard to
case. Dots in a name separate the levels of its place, and a separator can be given that stands for
a dot.
-/

namespace Rollcall.Config

/-- How variables are turned into settings: by what the names begin with, and by what separates
levels in them. -/
structure VariableStyle where
  /-- What the names of the variables begin with. -/
  start : String
  /-- What separates levels in the names of variables, besides the dot. -/
  separator? : Option String

namespace VariableStyle

/-- The rest of a name behind a beginning, which is compared without regard to case. -/
def rest? : List Char → List Char → Option (List Char)
  | [], name => some name
  | _ :: _, [] => none
  | a :: start, b :: name => if a.toLower = b.toLower then rest? start name else none

/-- The place of a variable's setting, if the variable is one of these and no level is empty. The
name is trimmed before its beginning is looked at. -/
def place? (style : VariableStyle) (name : String) : Option (List String) := do
  let rest ← rest? style.start.toList (Text.trim name.toList)
  let dotted := match style.separator? with
    | some separator => Text.replace separator.toList ['.'] rest
    | none => rest
  let levels := Text.splitOn '.' (Text.trim dotted)
  if levels.any List.isEmpty then none
  else some (levels.map fun level => String.ofList (level.map Char.toLower))

/-- The settings of all variables of a style, given as they were set one after the other. Each is
laid over those before it, so the last one for a place counts. -/
def settings (style : VariableStyle) (environment : List (String × String)) : Setting :=
  (Entries.ofList environment).foldl (fun all (name, value) =>
    match style.place? name with
    | some place => all.merge (.nest place (Inline.ofText value))
    | none => all) (.table [])

end VariableStyle
end Rollcall.Config
