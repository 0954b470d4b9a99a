import Rollcall.Config.Setting

/-!
# TOML: tables that grow

A document builds its tables piece by piece, and each table may be defined once. A header opens a
table that deeper headers have only implied; dotted keys extend a table that dotted keys have made;
all else that names a thing twice is an error. So a table remembers how it came to be.
-/

namespace Rollcall.Config.Toml

/-- What stands under a name of a document. -/
inductive Node where
  /-- A value, closed for good. -/
  | value (s : Setting)
  /-- A table: whether it has only been implied so far, and whether by dotted keys. -/
  | table (implied dotted : Bool) (entries : List (String × Node))
  /-- An array of tables, of which the last is open. -/
  | tables (done : List (List (String × Node))) (last : List (String × Node))

namespace Node

def opened (entries : Entries Node) : Node := .table false false entries

/-- Changes the table at a path, and implies the tables on the way that are not there yet. With
`dotted` the path is that of dotted keys, which pass through no table that a header has opened. The
change is told whether the table at the path has been made by dotted keys. -/
def change (dotted : Bool) (f : Bool → Entries Node → Option (Entries Node)) (made : Bool)
    (entries : Entries Node) : List String → Option (Entries Node)
  | [] => f made entries
  | name :: path => do
    match entries.get? name with
    | none =>
      let child ← change dotted f dotted [] path
      some (entries.insert name (.table true dotted child))
    | some (.value _) => none
    | some (.tables done last) =>
      -- Behind the name of an array of tables it is the last of them that is meant.
      let child ← change dotted f false last path
      some (entries.insert name (.tables done child))
    | some (.table implied made child) =>
      if dotted && !implied then none
      else
        let child ← change dotted f made child path
        some (entries.insert name (.table implied made child))

def define (name : String) (n : Node) (entries : Entries Node) : Option (Entries Node) :=
  match entries.get? name with
  | some _ => none
  | none => some (entries.insert name n)

/-- Defines a value under dotted keys; a table that a header has opened is extended by plain keys
only, and one that dotted keys have made by dotted keys only. -/
def assign (entries : Entries Node) (path : List String) (n : Node) : Option (Entries Node) := do
  let name ← path.getLast?
  let place := path.dropLast
  change true (fun made entries =>
    if made = place.isEmpty then none else define name n entries) false entries place

mutual

def toSetting : Node → Setting
  | .value s => s
  | .table _ _ entries => .table (toSettings entries)
  | .tables done last => .list (toTables done ++ [.table (toSettings last)])

def toSettings : List (String × Node) → Entries Setting
  | [] => []
  | (name, n) :: rest => (name, toSetting n) :: toSettings rest

def toTables : List (List (String × Node)) → List Setting
  | [] => []
  | entries :: rest => .table (toSettings entries) :: toTables rest

end

end Node
end Rollcall.Config.Toml
