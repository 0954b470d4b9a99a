import Rollcall.Patch

/-!
# The directory

Who is registered: the entries in the order of their admission, never two for one role and address.
A second registration of an instance that is there already leaves its entry alone, old identifier
included; the new identifier is handed out all the same and is never adopted.

All roles share one list. Within a role its order is the order of admission; across roles it means
nothing, and no statement hangs on it. A table with a list for each role, gone through in whatever
order of the roles, shows the same, which is the subject of `Rollcall.Proofs.RoleTable`.

    d.enroll id reg           admits a registration under a fresh identifier
    d.remove? role url        takes out the entry of an instance
    d.evict? stale            takes out that very entry, or nothing
    d.ofRole r                who plays a role, in order of admission
    d.catchUp reg             what a registrant has to be told about its dependencies
    d.others reg              everyone but the instance itself
-/

namespace Rollcall

/-- The outcome of admitting a registration. The identifier is a fresh one whatever happens; if the
instance was there already its entry keeps the old one, and the registrant has been given an
identifier that belongs to nobody. -/
structure Admission where
  /-- The identifier given to the registrant. -/
  id : InstanceId
  /-- The registration as submitted, with that identifier. -/
  registration : Registration
  /-- What the directory holds for the instance from now on. -/
  entry : Registration
  /-- Whether the instance is new to the directory. -/
  inserted : Bool
  deriving Repr, DecidableEq

/-- The registered instances, in the order of their admission. That no two of them share a role and
an address, or an identifier, is not part of the type: it is what every run preserves. -/
structure Directory where
  entries : List Registration := []
  deriving Repr, DecidableEq

namespace Directory

def ofRole (d : Directory) (r : Role) : List Registration := d.entries.filter (·.role = r)

/-- Whether an entry is the one of a role and an address. Both have to be the very same; neither is
trimmed or put into another form. -/
def isAt (r : Role) (url : String) (entry : Registration) : Bool :=
  entry.role = r && entry.url = url

def find? (d : Directory) (r : Role) (url : String) : Option Registration :=
  d.entries.find? (isAt r url)

def isRegistered (d : Directory) (id : InstanceId) : Bool := d.entries.any (·.id = id)

def size (d : Directory) : Nat := d.entries.length

def isEmpty (d : Directory) : Bool := d.entries.isEmpty

/-- Admits a registration under the identifier `id`. Who is there already under its role and address
stays as it is, with all its fields; the new registration is then dropped. -/
def enroll (d : Directory) (id : InstanceId) (reg : Registration) : Directory × Admission :=
  let reg := { reg with id := id }
  match d.find? reg.role reg.url with
  | some kept => (d, ⟨id, reg, kept, false⟩)
  | none => (⟨d.entries ++ [reg]⟩, ⟨id, reg, reg, true⟩)

def takeFirst? (d : Directory) (p : Registration → Bool) : Option (Registration × Directory) :=
  (d.entries.find? p).map fun entry => (entry, ⟨d.entries.eraseP p⟩)

def remove? (d : Directory) (r : Role) (url : String) : Option (Registration × Directory) :=
  d.takeFirst? (isAt r url)

/-- Takes out an entry if the directory still holds that very one: an instance that went and came
back has another identifier. -/
def evict? (d : Directory) (stale : Registration) : Option (Registration × Directory) :=
  d.takeFirst? fun entry => isAt stale.role stale.url entry && entry.id = stale.id

/-- Everyone but the instance that a registration describes. It is compared by role and address, so
an instance is left out of the news about itself whatever its identifier. -/
def others (d : Directory) (subject : Registration) : List Registration :=
  d.entries.filter (!·.sameInstance subject)

/-- What a registrant has to be told: the present providers of all roles that it depends on, role by
role, itself left out if it depends on its own role. -/
def catchUp (d : Directory) (registrant : Registration) : Patch :=
  .ofAdded ((registrant.requires.toList.flatMap d.ofRole).filter (!·.sameInstance registrant))

end Directory

end Rollcall
