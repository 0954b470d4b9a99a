import Rollcall.Json.Writer
import Rollcall.Registration

/-!
# Patches

A patch tells what has changed: the instances that came and those that went. Nobody is told more
than they asked for: `scopedTo` keeps of a patch what its recipient depends on.
-/

namespace Rollcall

/-- A change of who is there. Either list may be empty, and one of both is, in all news that a
registry sends. -/
structure Patch where
  added : List Registration := []
  removed : List Registration := []
  deriving Repr, DecidableEq, Inhabited

namespace Patch

def ofAdded (regs : List Registration) : Patch := { added := regs }

def ofRemoved (regs : List Registration) : Patch := { removed := regs }

def isEmpty (p : Patch) : Bool := p.added.isEmpty && p.removed.isEmpty

/-- What of a patch concerns the roles that `recipient` depends on. The order of what is left is
that of the patch. -/
def scopedTo (p : Patch) (recipient : Registration) : Patch where
  added := p.added.filter fun reg => recipient.dependsOn reg.role
  removed := p.removed.filter fun reg => recipient.dependsOn reg.role

/-! ### The wire form -/

def fieldNames : List String := ["added", "removed"]

def registrations? : Option Json.Value → Option (List Registration) :=
  Registration.orDefault [] (Json.Value.list? Registration.ofJson?)

/-- Reads a patch; either list may be missing. -/
def ofJson? (v : Json.Value) : Option Patch :=
  match Json.fields? fieldNames v with
  | some [added, removed] => do
    some { added := ← registrations? added, removed := ← registrations? removed }
  | _ => none

def ofBytes? (bytes : Text.Bytes) : Option Patch := (Json.Value.ofBytes? bytes).bind ofJson?

def toJson (p : Patch) : Json.Value :=
  .object [(Json.escape "added".toList, .array (p.added.map Registration.toJson)),
    (Json.escape "removed".toList, .array (p.removed.map Registration.toJson))]

def bytes (p : Patch) : Text.Bytes := p.toJson.render

end Patch

def Registration.ofBytes? (bytes : Text.Bytes) : Option Registration :=
  (Json.Value.ofBytes? bytes).bind Registration.ofJson?

def Registration.bytes (reg : Registration) : Text.Bytes := reg.toJson.render

end Rollcall
