import Rollcall.Directory
import Rollcall.Membership.Error

/-!
# The provider cache

What an instance knows of the roles it depends on, fed only by the patches it is sent. A role stays
known once a patch has named it, even if all its providers have gone; only a role that no patch has
named since the last `clear` is unknown.

Roles and providers are two lists, so that a role can be known without a provider. A table with a
list for each role shows the same, which is the subject of `Rollcall.Proofs.RoleTable`.

    c.get r       the known providers of a role, or that nothing is known of it
    c.apply p     stores what a patch added, then drops what it removed
-/

namespace Rollcall

/-- The known roles and their providers. Roles and entries stand in the order in which patches named
them; between roles that order is of no account. -/
structure ProviderCache where
  roles : List Role := []
  entries : List Registration := []
  deriving Repr, DecidableEq

namespace ProviderCache

def providers (c : ProviderCache) (r : Role) : List Registration := c.entries.filter (·.role = r)

/-- The known providers of a role, or that no patch has named it. A role whose providers have all
gone is known, and has none. -/
def get (c : ProviderCache) (r : Role) : Except MemberError (List Registration) :=
  if c.roles.contains r then .ok (c.providers r) else .error (.notFound r)

/-- Stores an instance. One that is known already, under the same role and address, is replaced
where it stands, with whatever identifier it had. -/
def add (c : ProviderCache) (reg : Registration) : ProviderCache where
  roles := if c.roles.contains reg.role then c.roles else c.roles ++ [reg.role]
  entries :=
    if c.entries.any (·.sameInstance reg) then
      c.entries.map fun known => if known.sameInstance reg then reg else known
    else c.entries ++ [reg]

/-- Whether an entry carries the identifier of a removed instance of the same role. Without an
identifier nothing can carry it. -/
def carriesIdOf (removed known : Registration) : Bool :=
  known.role = removed.role && !removed.id.isEmpty && known.id = removed.id

/-- Drops an instance: the one with its identifier, and if there is none, the one at its address. A
role that loses its last provider stays known. -/
def remove (c : ProviderCache) (removed : Registration) : ProviderCache :=
  let carries := carriesIdOf removed
  let gone := if c.entries.any carries then carries else (·.sameInstance removed)
  { c with entries := c.entries.eraseP gone }

/-- Takes in a patch: first what it added, in order, then what it removed. An instance that stands
in both is gone afterwards. -/
def apply (c : ProviderCache) (p : Patch) : ProviderCache :=
  p.removed.foldl remove (p.added.foldl add c)

def clear (_ : ProviderCache) : ProviderCache := {}

def names (c : ProviderCache) : List Role := c.roles

/-- Every known role with its providers, ordered by the names of the roles. -/
def listing (c : ProviderCache) : List (Role × List Registration) :=
  (c.names.mergeSort fun a b => a.text ≤ b.text).map fun r => (r, c.providers r)

end ProviderCache
end Rollcall
