import Rollcall.Registry.Error

/-!
# Kinds of heartbeat

The last part of a heartbeat's path says how the body is to be read. So far there is one kind.
-/

namespace Rollcall

/-- How the body of a heartbeat is read. -/
inductive HeartbeatKind where
  /-- The body is the identifier and nothing else. -/
  | basic
  deriving Repr, DecidableEq

namespace HeartbeatKind

def text : HeartbeatKind → String
  | basic => "basic"

def ofText (name : String) : Except RegistryError HeartbeatKind :=
  if name = basic.text then .ok basic else .error (.unknownHeartbeatKind name)

end HeartbeatKind
end Rollcall
