import Rollcall.InstanceId
import Rollcall.RoleSet
import Rollcall.Net.IPv6

/-!
# Registrations

A registration describes one running instance: its role, the address under which it is unique
within that role, the roles it depends on, and where to send it news about them. The registry
decides nothing by the remaining fields.

    sameInstance a b     same role and same address
    dependsOn a r        whether `a` wants news about the role `r`
    validate a           the first thing missing without which the registry cannot work
-/

namespace Rollcall

/-- The fields of a registration, in the order of its wire form. Errors name a field by its wire
name, so that whoever has sent it finds it in what was sent. -/
inductive Field where
  | role
  | url
  | id
  | publicIPv4
  | publicIPv6
  | description
  | tags
  | requires
  | updateUrl
  deriving Repr, DecidableEq

namespace Field

def name : Field → String
  | role => "serviceName"
  | url => "serviceURL"
  | id => "serviceID"
  | publicIPv4 => "publicIPv4"
  | publicIPv6 => "publicIPv6"
  | description => "description"
  | tags => "tags"
  | requires => "requiredServices"
  | updateUrl => "serviceUpdateURL"

def all : List Field :=
  [role, url, id, publicIPv4, publicIPv6, description, tags, requires, updateUrl]

end Field

/-- What an instance can have failed to bring. -/
inductive InputError where
  /-- A field that must not be blank. -/
  | missingField (field : Field)
  /-- The shared key, which is not configured. -/
  | keyNotConfigured
  deriving Repr, DecidableEq

/-- The environment variable that holds the shared key. -/
def keyVariable : String := "REGKEY"

def InputError.message : InputError → String
  | missingField field => "missing field: " ++ field.name
  | keyNotConfigured => "registry key not configured (set " ++ keyVariable ++ ")"

/-- One running instance of a role. What it is, is its role and its address; all else may change
from one registration of it to the next. -/
structure Registration where
  role : Role
  /-- Reachable base address, unique within the role. -/
  url : String
  /-- Given by the registry, empty before. -/
  id : InstanceId := {}
  /-- The address that peers on other hosts dial. -/
  publicIPv4 : Option Net.IPv4 := none
  publicIPv6 : Option Net.IPv6 := none
  /-- Free text. -/
  description : Option String := none
  /-- Free words about what the instance can do. -/
  tags : List String := []
  /-- The roles whose comings and goings the instance wants to hear of. -/
  requires : RoleSet := {}
  /-- Where the news is sent. -/
  updateUrl : String := ""
  deriving Repr, DecidableEq

namespace Registration

/-- Declares a dependency on one more role. -/
def addRequirement (reg : Registration) (r : Role) : Registration :=
  { reg with requires := reg.requires.insert r }

/-- Whether an instance wants to hear of a role. An instance may depend on its own role; it then
hears of its peers, and never of itself. -/
def dependsOn (reg : Registration) (r : Role) : Bool := reg.requires.contains r

/-- Whether two registrations describe the same instance. Neither the identifier nor any other field
plays a part in that. -/
def sameInstance (a b : Registration) : Bool := a.role = b.role && a.url = b.url

/-- Finds the first thing missing without which the registry cannot work: a role, an address, and
for an instance with dependencies a place to send the news to. -/
def validate (reg : Registration) : Except InputError Unit :=
  if reg.role.isBlank then .error (.missingField .role)
  else if Text.isBlankText reg.url then .error (.missingField .url)
  else if !reg.requires.isEmpty && Text.isBlankText reg.updateUrl then
    .error (.missingField .updateUrl)
  else .ok ()

/-! ### The wire form -/

def orDefault {α : Type} (default : α) (read : Json.Value → Option α) :
    Option Json.Value → Option α
  | none => some default
  | some v => read v

/-- A field that may be left out or null; both mean that there is nothing. Whatever else stands
there has to be what the field is read with. -/
def optional {α : Type} (read : Json.Value → Option α) : Option Json.Value → Option (Option α)
  | none | some .null => some none
  | some v => (read v).map some

/-- Reads the fields of a registration, given in the order of the wire form. If any of them is not
what it has to be there is no registration at all. -/
def ofFields? : List (Option Json.Value) → Option Registration
  | [role, url, id, publicIPv4, publicIPv6, description, tags, requires, updateUrl] => do
    some {
      role := ← role.bind Role.ofJson?
      url := ← url.bind Json.Value.text?
      id := ← orDefault {} InstanceId.ofJson? id
      publicIPv4 := ← optional (fun v => v.text?.bind Net.IPv4.ofText?) publicIPv4
      publicIPv6 := ← optional (fun v => v.text?.bind Net.IPv6.ofText?) publicIPv6
      description := ← optional Json.Value.text? description
      tags := ← orDefault [] (Json.Value.list? Json.Value.text?) tags
      requires := ← orDefault {} RoleSet.ofJson? requires
      updateUrl := ← orDefault "" Json.Value.text? updateUrl }
  | _ => none

/-- Reads a registration. Only its role and its address have to be there, an unknown member is
passed over, and one that is given twice is an error. -/
def ofJson? (v : Json.Value) : Option Registration :=
  (Json.fields? (Field.all.map Field.name) v).bind ofFields?

/-- The value of a field in the wire form, or nothing if the field is left out there: addresses and
a description that are not known, and an empty list of tags. -/
def field? (reg : Registration) : Field → Option Json.Value
  | .role => some reg.role.toJson
  | .url => some (.text reg.url)
  | .id => some reg.id.toJson
  | .publicIPv4 => reg.publicIPv4.map fun ip => .text ip.text
  | .publicIPv6 => reg.publicIPv6.map fun ip => .text ip.text
  | .description => reg.description.map .text
  | .tags => if reg.tags.isEmpty then none else some (.array (reg.tags.map .text))
  | .requires => some reg.requires.toJson
  | .updateUrl => some (.text reg.updateUrl)

/-- The wire form of a registration. -/
def toJson (reg : Registration) : Json.Value :=
  .object (Field.all.filterMap fun field =>
    (reg.field? field).map fun v => (Json.escape field.name.toList, v))

end Registration
end Rollcall
