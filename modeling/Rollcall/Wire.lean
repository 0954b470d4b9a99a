import Rollcall.Registration

/-!
# Names on the wire

The paths, the header and the query parameter that the registry and its instances agree on.
-/

namespace Rollcall.Wire

def servicesPath : String := "/services"

/-- Heartbeats live below this path, one for each kind. -/
def heartbeatPath : String := "/heartbeat"

/-- The path of the basic heartbeat. -/
def basicHeartbeatPath : String := "/heartbeat/basic"

def keyHeader : String := "regkey"

def roleParameter : String := Field.role.name

end Rollcall.Wire
