import Rollcall.Duration
import Rollcall.Http.Status
import Rollcall.Registration

/-!
# What the registry refuses, and how it says so

Every refusal is a cause. Its text and its HTTP status are functions of the cause, so that the
answer over HTTP and the outcome inside the process never differ.
-/

namespace Rollcall

/-- Why a patch did not arrive. -/
inductive DeliveryFault where
  /-- Nobody takes connections at the address. -/
  | refused
  /-- No answer came in time. -/
  | timedOut (after : Duration)
  /-- The recipient answered with another status than 200. -/
  | answered (status : Http.Status)
  /-- The address or the key cannot be put into a request. -/
  | unsendable
  /-- The exchange broke off before there was an answer. -/
  | unreachable
  /-- A reason given in words. -/
  | other (reason : String)
  deriving Repr, DecidableEq

def DeliveryFault.message : DeliveryFault → String
  | refused => "connection refused"
  | timedOut after => "timed out after " ++ after.text
  | answered status => "recipient responded " ++ status.text
  | unsendable => "the request cannot be sent"
  | unreachable => "the recipient cannot be reached"
  | other reason => reason

/-- What can be wrong with what a request brings. -/
inductive RequestFlaw where
  /-- The body is no registration. -/
  | undecodable
  /-- The query names no role. -/
  | noRole
  /-- The registration is incomplete. -/
  | incomplete (error : InputError)
  /-- A flaw given in words. -/
  | other (detail : String)
  deriving Repr, DecidableEq

def RequestFlaw.message : RequestFlaw → String
  | undecodable => "the body is not a registration"
  | noRole => "serviceName is required"
  | incomplete error => error.message
  | other detail => detail

/-- What the registry can refuse a request with. Texts and statuses are functions of the cause,
`message` and `status`. -/
inductive RegistryError where
  /-- There is no such instance. -/
  | notFound (role : Role) (url : String)
  /-- A heartbeat from an instance that is not in the directory. -/
  | unregistered (id : InstanceId)
  /-- The key is missing or wrong. -/
  | unauthorized
  | malformed (flaw : RequestFlaw)
  | unknownHeartbeatKind (kind : String)
  | deliveryFailed (target : String) (fault : DeliveryFault)
  | configuration (detail : String)
  | io (detail : String)
  deriving Repr, DecidableEq

namespace RegistryError

/-- What an incomplete input means to the registry. A missing field is the fault of whoever sent it;
a missing key is the fault of whoever set the registry up. -/
def ofInput : InputError → RegistryError
  | .missingField field => .malformed (.incomplete (.missingField field))
  | .keyNotConfigured => .configuration InputError.keyNotConfigured.message

def message : RegistryError → String
  | notFound role url => "service " ++ role.text ++ " at " ++ url ++ " not found"
  | unregistered id => "service not registered: " ++ id.text
  | unauthorized => "unauthorized"
  | malformed flaw => "malformed payload: " ++ flaw.message
  | unknownHeartbeatKind kind => "unknown heartbeat kind: " ++ kind
  | deliveryFailed target fault => "patch delivery to " ++ target ++ " failed: " ++ fault.message
  | configuration detail => "configuration error: " ++ detail
  | io detail => "I/O error: " ++ detail

/-- The status with which a refusal is answered. The registry takes the blame for deliveries that
failed and for its own configuration, and for nothing else. -/
def status : RegistryError → Http.Status
  | notFound .. | unknownHeartbeatKind _ => .notFound
  | unregistered _ | unauthorized => .unauthorized
  | malformed _ => .badRequest
  | deliveryFailed .. | configuration _ | io _ => .internalServerError

end RegistryError
end Rollcall
