import Rollcall.Config.Source
import Rollcall.Duration

/-!
# Configuration of a member

Four settings in no groups, each of which may be left out: `registry_url`, and in whole seconds
`retry_interval`, `heartbeat_interval` and `request_timeout`. A variable names a setting behind the
beginning `EPHEMERIS_`.
-/

namespace Rollcall

open Config (Setting VariableStyle)

/-- What a member is told before it starts. -/
structure MemberConfig where
  /-- The address of the registry. -/
  registryAddress : String
  /-- How long it waits before it tries again to register. -/
  retryInterval : Duration
  /-- How often it reports alive. -/
  heartbeatInterval : Duration
  /-- How long a request may take. -/
  requestTimeout : Duration
  deriving Repr, DecidableEq

namespace MemberConfig

/-- The configuration of a member that is told nothing. -/
def standard : MemberConfig where
  registryAddress := "http://127.0.0.1:80"
  retryInterval := .ofSeconds 3
  heartbeatInterval := .ofSeconds 3
  requestTimeout := .ofSeconds 5

def variableStyle : VariableStyle := ⟨"EPHEMERIS_", none⟩

/-- The configuration that settings describe; what they leave out is standard. There are no groups,
so a variable names a field directly. -/
def ofSetting? (s : Setting) : Option MemberConfig := do
  let field ← s.record? ["registry_url", "retry_interval", "heartbeat_interval", "request_timeout"]
  let address := Setting.orDefault standard.registryAddress Setting.text? (field "registry_url")
  let seconds (default : Duration) (name : String) : Option Duration :=
    Setting.orDefault default Setting.seconds? (field name)
  some {
    registryAddress := ← address
    retryInterval := ← seconds standard.retryInterval "retry_interval"
    heartbeatInterval := ← seconds standard.heartbeatInterval "heartbeat_interval"
    requestTimeout := ← seconds standard.requestTimeout "request_timeout" }

def parse (text : String) : Except ConfigError MemberConfig :=
  Config.fitted ofSetting? (Config.ofFile text)

/-- The configuration in a file, if there is one, overridden by variables. -/
def load (file? : Option String) (environment : List (String × String)) :
    Except ConfigError MemberConfig :=
  Config.fitted ofSetting? (Config.layered variableStyle file? environment)

end MemberConfig
end Rollcall
