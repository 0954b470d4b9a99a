import Rollcall.Config.Toml.Number
import Rollcall.Config.Toml.Table

/-!
# TOML documents

A document is a run of statements, one a line: a header opens a table, `[a.b]`, or adds one to an
array of tables, `[[a.b]]`; an assignment puts a value into the table that is open.

    ofText? s    the settings of a document
-/

namespace Rollcall.Config.Toml

open Inline (Reader)

/-! ### Values -/

/-- The setting of a moment. No setting here is a moment, so it is enough that it fits nothing: it
is a table with a name that no record has use for. -/
def momentSetting (cs : List Char) : Setting := .table [("moment", .text (String.ofList cs))]

def number? (cs : List Char) : Option (Setting × List Char) :=
  match moment? cs with
  | some rest => some (momentSetting (cs.take (cs.length - rest.length)), rest)
  | none =>
    match real? cs with
    | some rest => some (.real, rest)
    | none => (integer? cs).map fun (n, rest) => (.integer n, rest)

/-- Takes a value that holds no other. -/
def scalar? (cs : List Char) : Option (Setting × List Char) :=
  match cs with
  | 't' :: 'r' :: 'u' :: 'e' :: rest => some (.flag true, rest)
  | 'f' :: 'a' :: 'l' :: 's' :: 'e' :: rest => some (.flag false, rest)
  | '"' :: _ | '\x27' :: _ => (string? cs).map fun (s, rest) => (.text (String.ofList s), rest)
  | cs => number? cs

/-- Takes the items of an array behind its bracket; they may stand on lines of their own. -/
def items? (value : Reader Setting) : Nat → Reader (List Setting)
  | 0, _ => none
  | n + 1, cs => do
    let cs := skipLines cs.length cs
    match cs with
    | ']' :: rest => some ([], rest)
    | cs =>
      let (s, rest) ← value cs
      match skipLines rest.length rest with
      | ',' :: rest => (items? value n rest).map fun (ss, rest) => (s :: ss, rest)
      | ']' :: rest => some ([s], rest)
      | _ => none

def assignment? (value : Reader Setting) : Reader (List String × Setting) := fun cs => do
  let (path, rest) ← path? cs
  match rest with
  | '=' :: rest =>
    let (s, rest) ← value (skipSpace rest)
    some ((path, s), rest)
  | _ => none

/-- Takes the assignments of an inline table, which stand on one line. -/
def assignments? (value : Reader Setting) : Nat → Reader (List (List String × Setting))
  | 0, _ => none
  | n + 1, cs => do
    let (a, rest) ← assignment? value cs
    match skipSpace rest with
    | ',' :: rest => (assignments? value n rest).map fun (as, rest) => (a :: as, rest)
    | '\x7d' :: rest => some ([a], rest)
    | _ => none

def tableOf? (assignments : List (List String × Setting)) : Option Setting := do
  let entries ← assignments.foldlM (fun entries (path, s) => Node.assign entries path (.value s)) []
  some (.table (Node.toSettings entries))

def inlineTable? (value : Reader Setting) (cs : List Char) : Option (Setting × List Char) :=
  match skipSpace cs with
  | '\x7d' :: rest => some (.table [], rest)
  | cs => do
    let (as, rest) ← assignments? value (cs.length + 1) cs
    some (← tableOf? as, rest)

/-- Takes a value, nested so deep at most. -/
def value? (depth : Nat) (cs : List Char) : Option (Setting × List Char) :=
  match depth, cs with
  | depth + 1, '[' :: rest =>
    (items? (value? depth) (rest.length + 1) rest).map fun (ss, rest) => (.list ss, rest)
  | depth + 1, '\x7b' :: rest => inlineTable? (value? depth) rest
  | _, cs => scalar? cs

/-! ### Statements -/

inductive Statement where
  /-- Opens a table. -/
  | header (path : List String)
  /-- Adds a table to an array of tables. -/
  | arrayHeader (path : List String)
  | assign (path : List String) (s : Setting)

def statement? (cs : List Char) : Option (Statement × List Char) :=
  match cs with
  | '[' :: '[' :: rest => do
    let (path, rest) ← path? rest
    match rest with
    | ']' :: ']' :: rest => some (.arrayHeader path, rest)
    | _ => none
  | '[' :: rest => do
    let (path, rest) ← path? rest
    match rest with
    | ']' :: rest => some (.header path, rest)
    | _ => none
  | cs => (assignment? (value? maxDepth) cs).map fun ((path, s), rest) => (.assign path s, rest)

/-- Takes all statements, so many at most. -/
def statements? : Nat → List Char → Option (List Statement)
  | 0, _ => none
  | n + 1, cs => do
    match skipLines cs.length cs with
    | [] => some []
    | '#' :: rest => if (rest.dropWhile isPrintable).isEmpty then some [] else none
    | cs =>
      let (s, rest) ← statement? cs
      (statements? n (← endOfLine? rest)).map (s :: ·)

/-! ### Documents -/

/-- A document in the making: what is closed, and the table that is open, with its place. The open
table is kept apart until the next header closes it. -/
structure Draft where
  root : Entries Node := []
  current : Entries Node := []
  /-- The place of the open table; nothing stands for the document itself. -/
  path : List String := []
  /-- Whether the open table is one of an array. -/
  inArray : Bool := false

namespace Draft

/-- Adds a table to an array of tables, which may be new. -/
def append? (name : String) (table : Entries Node) (entries : Entries Node) :
    Option (Entries Node) :=
  match entries.get? name with
  | none => some (entries.insert name (.tables [] table))
  | some (.tables done last) => some (entries.insert name (.tables (done ++ [last]) table))
  | some _ => none

/-- Puts the open table into its place. -/
def close? (d : Draft) : Option (Entries Node) :=
  match d.path.getLast? with
  | none => some d.current
  | some name =>
    let put := if d.inArray then append? name d.current else Node.define name (.opened d.current)
    Node.change false (fun _ => put) false d.root d.path.dropLast

/-- Takes a table out of its place, to be opened by a header: one that is new, or one that headers
have only implied. -/
def takeOut? (name : String) (entries : Entries Node) : Option (Entries Node × Entries Node) :=
  match entries.get? name with
  | none => some (entries, [])
  | some (.table true false found) => some (entries.erase name, found)
  | some _ => none

def entriesAt? (entries : Entries Node) : List String → Option (Entries Node)
  | [] => some entries
  | name :: path =>
    match entries.get? name with
    | some (.table _ _ child) => entriesAt? child path
    | some (.tables _ last) => entriesAt? last path
    | _ => none

def openTable? (root : Entries Node) (path : List String) : Option Draft := do
  let name ← path.getLast?
  let place := path.dropLast
  let root ← Node.change false (fun _ => some) false root place
  let (rest, found) ← takeOut? name (← entriesAt? root place)
  let root ← Node.change false (fun _ _ => some rest) false root place
  some { root := root, current := found, path := path }

def openArray? (root : Entries Node) (path : List String) : Option Draft := do
  let name ← path.getLast?
  let root ← Node.change false (fun _ entries =>
    match entries.get? name with
    | none | some (.tables ..) => some entries
    | some _ => none) false root path.dropLast
  some { root := root, path := path, inArray := true }

def take? (d : Draft) : Statement → Option Draft
  | .header path => do openTable? (← d.close?) path
  | .arrayHeader path => do openArray? (← d.close?) path
  | .assign path s => do some { d with current := ← Node.assign d.current path (.value s) }

end Draft

/-- Drops the mark that some editors put in front of a text. -/
def dropMark (cs : List Char) : List Char :=
  match cs with
  | '\ufeff' :: rest => rest
  | cs => cs

def ofText? (s : String) : Option Setting := do
  let cs := dropMark s.toList
  let statements ← statements? (cs.length + 1) cs
  let draft ← statements.foldlM Draft.take? {}
  some (.table (Node.toSettings (← draft.close?)))

end Rollcall.Config.Toml
