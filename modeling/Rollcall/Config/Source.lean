import Rollcall.Config.Environment
import Rollcall.Config.Toml.Document

/-!
# Where settings come from

Settings are written in a file, and variables override them. Without a file only the variables
count; a file that is there has to be readable.

    ofFile text                       the settings of a file
    layered style file? environment   the settings of a file, if any, under those of variables
-/

namespace Rollcall

inductive ConfigError where
  /-- The file is not a TOML document. -/
  | unreadable
  /-- A setting has a value of the wrong kind. -/
  | unfit
  deriving Repr, DecidableEq

namespace Config

def ofFile (text : String) : Except ConfigError Setting :=
  (Toml.ofText? text).elim (.error .unreadable) .ok

/-- The settings of a file, if there is one, overridden by those of the variables of a style. A file
that cannot be read is an error, whatever the variables say. -/
def layered (style : VariableStyle) (file? : Option String) (environment : List (String × String)) :
    Except ConfigError Setting :=
  (file?.elim (.ok (.table [])) ofFile).map (·.merge (style.settings environment))

/-- The configuration that settings describe. Settings that do not fit are told apart from a file
that cannot be read. -/
def fitted {α : Type} (read? : Setting → Option α) (settings : Except ConfigError Setting) :
    Except ConfigError α :=
  settings.bind fun s => (read? s).elim (.error .unfit) .ok

end Config
end Rollcall
