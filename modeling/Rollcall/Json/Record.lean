import Rollcall.Json.Literal

/-!
# Records in JSON

A record is an object whose members are its fields by name, in any order, or an array of its fields
by place. In an object every key has to be a sound text, members that are no fields are passed over,
and a field given twice is an error. In an array fields at the end may be missing, but there is no
place for additional ones.
-/

namespace Rollcall.Json

/-- The value of the field `name` among named members: nothing if it is missing, an error if it is
given twice. -/
def field? (members : List (String × Value)) (name : String) : Option (Option Value) :=
  match members.filter (·.1 = name) with
  | [] => some none
  | [(_, v)] => some (some v)
  | _ => none

/-- The members of an object with the texts of their keys. One key that is no text spoils the whole
object. -/
def keyed? (members : List (Text.Bytes × Value)) : Option (List (String × Value)) :=
  members.mapM fun (raw, v) => (unescape? raw).map fun key => (String.ofList key, v)

/-- The values of the fields `names` in that order, where given. A record may be an object, of which
other members are passed over, or an array that gives the fields by place. -/
def fields? (names : List String) : Value → Option (List (Option Value))
  | .object members => do
    let members ← keyed? members
    names.mapM (field? members)
  | .array items =>
    if items.length ≤ names.length then
      some (items.map some ++ List.replicate (names.length - items.length) none)
    else none
  | _ => none

def Value.items? : Value → Option (List Value)
  | .array items => some items
  | _ => none

def Value.list? {α : Type} (read : Value → Option α) (v : Value) : Option (List α) :=
  v.items?.bind (·.mapM read)

end Rollcall.Json
