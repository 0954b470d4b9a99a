import Rollcall.Config.Source
import Rollcall.Net.Endpoint
import Rollcall.Registry.Basic

/-!
# Configuration of a registry

The settings come in three groups, and each of them may be left out.

    [api]         listen_addr
    [heartbeat]   sweep_interval, timeout
    [notify]      delivery_timeout, max_in_flight

Spans of time are whole seconds. A variable names the group and the setting with two underscores
between them, as in `REGISTRY_HEARTBEAT__TIMEOUT`.
-/

namespace Rollcall

open Config (Setting VariableStyle)

/-- What a registry is told before it starts. That all of this can be set says nothing of whether a
registry can run with it; `RegistryConfig.Runnable` does. -/
structure RegistryConfig extends RegistrySettings where
  /-- Where it listens. -/
  listenAddress : Net.Endpoint
  deriving Repr, DecidableEq

namespace RegistryConfig

/-- The configuration of a registry that is told nothing. Whatever settings leave out is taken from
it. -/
def standard : RegistryConfig where
  timeout := .ofSeconds 20
  sweepInterval := .ofSeconds 20
  deliveryTimeout := .ofSeconds 5
  maxInFlight := 64
  listenAddress := .v4 ⟨0, 0, 0, 0⟩ 80

/-- Two underscores lead from a group to one of its settings: a single one is part of a name. -/
def variableStyle : VariableStyle := ⟨"REGISTRY_", some "__"⟩

/-- The address to listen on, from the first group. -/
def readApi? (c : RegistryConfig) (s : Setting) : Option RegistryConfig := do
  let field ← s.record? ["listen_addr"]
  let address ← Setting.orDefault c.listenAddress
    (fun s => s.text?.bind Net.Endpoint.ofText?) (field "listen_addr")
  some { c with listenAddress := address }

/-- The care for silent instances, from the second group. -/
def readHeartbeat? (c : RegistryConfig) (s : Setting) : Option RegistryConfig := do
  let field ← s.record? ["sweep_interval", "timeout"]
  let seconds (standard : Duration) (name : String) : Option Duration :=
    Setting.orDefault standard Setting.seconds? (field name)
  let sweepInterval ← seconds c.sweepInterval "sweep_interval"
  let timeout ← seconds c.timeout "timeout"
  some { c with sweepInterval, timeout }

/-- The limits of deliveries, from the third group. -/
def readNotify? (c : RegistryConfig) (s : Setting) : Option RegistryConfig := do
  let field ← s.record? ["delivery_timeout", "max_in_flight"]
  let deliveryTimeout ←
    Setting.orDefault c.deliveryTimeout Setting.seconds? (field "delivery_timeout")
  let maxInFlight ← Setting.orDefault c.maxInFlight Setting.nat? (field "max_in_flight")
  some { c with deliveryTimeout, maxInFlight }

/-- The configuration that settings describe; what they leave out is standard. A group or a field
that is not known is passed over, and one value that does not fit spoils the whole. -/
def ofSetting? (s : Setting) : Option RegistryConfig := do
  let group ← s.record? ["api", "heartbeat", "notify"]
  let c ← Setting.orDefault standard standard.readApi? (group "api")
  let c ← Setting.orDefault c c.readHeartbeat? (group "heartbeat")
  Setting.orDefault c c.readNotify? (group "notify")

def parse (text : String) : Except ConfigError RegistryConfig :=
  Config.fitted ofSetting? (Config.ofFile text)

/-- The configuration in a file, if there is one, overridden by variables. -/
def load (file? : Option String) (environment : List (String × String)) :
    Except ConfigError RegistryConfig :=
  Config.fitted ofSetting? (Config.layered variableStyle file? environment)

end RegistryConfig
end Rollcall
