import Rollcall.AccessKey
import Rollcall.Http.Form
import Rollcall.Http.Route
import Rollcall.Registry.Basic
import Rollcall.Wire

/-!
# The registry over HTTP

    POST   /services                   key header, a registration     the identifier
    GET    /services?serviceName=…                                    the instances of a role
    DELETE /services?serviceName=…     the address of an instance     nothing
    POST   /heartbeat/basic            an identifier                  nothing
    GET    /health, GET /ready

A request is turned into an operation in a fixed order of checks: size and form of what it brings
first, then the key, then its contents. HEAD is answered like GET without the body.
-/

namespace Rollcall.Registry.Api

open Http

/-- What a request comes to: a reply, or a registration whose reply has to wait for its catch-up.
The second case is why serving a request needs no transport. -/
inductive Handling where
  | answered (reply : Reply)
  | enrolling (e : Enrolment)
  deriving Repr

/-- The places that the registry serves. Every path leads to one place at most. -/
inductive Place where
  | health
  | ready
  | services
  /-- A heartbeat; the kind is kept as it is written in the path. -/
  | heartbeat (kind : List Char)
  deriving Repr, DecidableEq

def place? (path : String) : Option Place :=
  if path = "/health" then some .health
  else if path = "/ready" then some .ready
  else if path = Wire.servicesPath then some .services
  else
    match (Route.ofText? (Wire.heartbeatPath ++ "/\x7bkind\x7d")).bind (·.match? path) with
    | some [kind] => some (.heartbeat kind)
    | _ => none

def failure (e : RegistryError) : Reply := ⟨e.status, .text e.message⟩

def member (name : String) (v : Json.Value) : Text.Bytes × Json.Value :=
  (Json.escape name.toList, v)

def healthy : Reply := ⟨.ok, .json (.object [member "status" (.text "healthy")])⟩

def readiness (r : Registry) : Reply :=
  ⟨.ok, .json (.object [member "ready" (.bool true), member "services" (.nat r.directory.size)])⟩

/-- The value of the parameter that names a role. A query that gives it twice is refused, even with
the same value. -/
def parameter? (request : Request) : Except Refusal (Option String) :=
  match (Form.pairs request.query).filter (·.1 = Wire.roleParameter) with
  | [] => .ok none
  | [(_, value)] => .ok (some value)
  | _ => .error .queryRepeated

/-- The role that a query asks for. The name is trimmed before it is read, and a blank one is no
role. Registrations are read without trimming, so a role with space around its name can be
registered and not be asked for. -/
def requiredRole (name? : Option String) : Except RegistryError Role :=
  let name := Text.trimmed (name?.getD "")
  if name.isEmpty then .error (.malformed .noRole) else .ok (.ofText name)

/-- The outcome of a request as a reply: refused before it was read, failed, or granted. -/
def reply (outcome : Except Refusal (Except RegistryError Reply)) : Reply :=
  match outcome with
  | .error refusal => .refuse refusal
  | .ok (.error e) => failure e
  | .ok (.ok reply) => reply

/-- Registers an instance. The body is taken first, then the key is looked at, and only then the
body is read, so a body that is too large is refused before a wrong key. -/
def post (key : AccessKey) (r : Registry) (now : Instant) (request : Request) :
    Registry × Handling :=
  match request.takeBody with
  | .error refusal => (r, .answered (.refuse refusal))
  | .ok body =>
    if key.verify (request.header? Wire.keyHeader) then
      match Registration.ofBytes? body with
      | none => (r, .answered (failure (.malformed .undecodable)))
      | some reg =>
        match r.register reg now with
        | .error e => (r, .answered (failure e))
        | .ok (r, e) => (r, .enrolling e)
    else (r, .answered (failure .unauthorized))

def get (r : Registry) (request : Request) : Reply :=
  reply do
    let name? ← parameter? request
    return do
      let role ← requiredRole name?
      return ⟨.ok, .json (.array ((r.query role).map Registration.toJson))⟩

def delete (r : Registry) (request : Request) : Registry × Reply :=
  let read : Except Refusal (Option String × String) := do
    return (← parameter? request, ← request.takeText)
  match read with
  | .error refusal => (r, .refuse refusal)
  | .ok (name?, body) =>
    let removed := do
      let role ← requiredRole name?
      r.deregister role (Text.trimmed body)
    match removed with
    | .error e => (r, failure e)
    | .ok (r, _) => (r, .bare .ok)

/-- Accepts a heartbeat. The kind is a part of the path and has to be text before anything else is
looked at. -/
def beat (kind : List Char) (r : Registry) (now : Instant) (request : Request) :
    Registry × Reply :=
  match Route.partText? kind with
  | none => (r, .refuse .pathNotText)
  | some kind =>
    match request.takeText with
    | .error refusal => (r, .refuse refusal)
    | .ok body =>
      -- The kind is looked at before the identifier, so an unknown kind is not found whoever beats.
      let accepted := do
        let kind ← HeartbeatKind.ofText kind
        r.heartbeat kind (.ofText body) now
      match accepted with
      | .error e => (r, failure e)
      | .ok r => (r, .bare .ok)

/-- Serves a request at its place. A method that is not served there is refused; HEAD counts as
GET. -/
def serveAt (key : AccessKey) (r : Registry) (now : Instant) (request : Request) (place : Place) :
    Registry × Handling :=
  let answer (reply : Reply) : Registry × Handling := (r, .answered reply)
  let refuse := answer (.bare .methodNotAllowed)
  let reading := request.method = "GET" || request.method = "HEAD"
  match place with
  | .health => if reading then answer healthy else refuse
  | .ready => if reading then answer (readiness r) else refuse
  | .services =>
    if reading then answer (get r request)
    else if request.method = "POST" then post key r now request
    else if request.method = "DELETE" then
      let (r, reply) := delete r request
      (r, .answered reply)
    else refuse
  | .heartbeat kind =>
    if request.method = "POST" then
      let (r, reply) := beat kind r now request
      (r, .answered reply)
    else refuse

/-- A reply to HEAD carries no body. -/
def withoutBody (request : Request) : Handling → Handling
  | .answered reply => .answered (if request.method = "HEAD" then .bare reply.status else reply)
  | enrolling => enrolling

def serve (key : AccessKey) (r : Registry) (now : Instant) (request : Request) :
    Registry × Handling :=
  match place? request.target.path with
  | none => (r, .answered (.bare .notFound))
  | some place =>
    let (r, handling) := serveAt key r now request place
    (r, withoutBody request handling)

/-- The reply to a registration whose catch-up has come to an end: the identifier, or the failure of
the delivery, although the entry is there. -/
def conclude (e : Enrolment) (fault? : Option DeliveryFault) : Reply :=
  match e.conclude fault? with
  | .ok id => ⟨.ok, .text id.text⟩
  | .error e => failure e

end Rollcall.Registry.Api
