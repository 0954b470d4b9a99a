import Rollcall.ProviderCache

/-!
# Members

A member is one instance as it sees itself: its registration, where it stands with the registry,
and what it knows of its providers.

    unregistered ──▶ registering ──▶ registered id ──▶ terminated
                          ▲               │
                          └─ unauthorized ┘
-/

namespace Rollcall

/-- Where an instance stands with the registry. It is what the calls at work on the instance share:
each reads it again in every step that depends on it. -/
inductive Standing where
  /-- Never registered, or the registration was abandoned. -/
  | unregistered
  /-- A registration is in progress or waits to be retried. -/
  | registering
  /-- Acknowledged; heartbeats carry this identifier. -/
  | registered (id : InstanceId)
  /-- Deregistered for good. -/
  | terminated
  deriving Repr, DecidableEq

def Role.debug : Role → String
  | log => "Log"
  | proxyNode => "ProxyNode"
  | web => "Web"
  | payment => "Payment"
  | shell => "Shell"
  | user => "User"
  | custom name => "Custom(" ++ Text.quoted name ++ ")"

namespace Standing

/-- The identifier to use for heartbeats. There is one only while the instance is registered; while
it registers anew the old one is not used. -/
def id? : Standing → Option InstanceId
  | registered id => some id
  | _ => none

def debug : Standing → String
  | unregistered => "Unregistered"
  | registering => "Registering"
  | registered id => "Registered(ServiceId(" ++ Text.quoted id.text ++ "))"
  | terminated => "Terminated"

end Standing

/-- An instance as it sees itself. The registration never changes, the standing is changed by calls,
and the cache by patches and by a call that forgets what is known. -/
structure Member where
  registration : Registration
  standing : Standing := .unregistered
  cache : ProviderCache := {}
  deriving Repr, DecidableEq

def Member.debug (m : Member) : String :=
  "RegistrationClient \x7b service_name: " ++ m.registration.role.debug ++ ", service_url: " ++
    Text.quoted m.registration.url ++ ", state: " ++ m.standing.debug ++ ", .. \x7d"

end Rollcall
