import Rollcall.AccessKey
import Rollcall.Http.Exchange
import Rollcall.Membership.Error
import Rollcall.Net.Url
import Rollcall.Wire
import Rollcall.Patch

/-!
# The way to the registry

How an instance puts its wishes to a registry over HTTP, and how it reads the answers. Each call has
two halves, the request and the reading of what came back; between them lies the network.

    link.call (link.registerRequest reg) readId x
    link.call (link.heartbeatRequest id) readNothing x
    link.call (link.deregisterRequest r url) readNothing x
    link.call (link.queryRequest r) readList x
-/

namespace Rollcall

open Http (Exchange Outgoing Status)
open Text (Bytes)

/-- Where the registry is, and what an instance needs to talk to it: the shared key, and how long it
waits for an answer. -/
structure RegistryLink where
  base : String
  key : AccessKey
  timeout : Duration

namespace RegistryLink

/-- The way to the registry at an address; slashes at its end do not count. -/
def ofAddress (address : String) (key : AccessKey) (timeout : Duration) : RegistryLink where
  base := String.ofList ((address.toList.reverse.dropWhile (· = '/')).reverse)
  key := key
  timeout := timeout

def debug (link : RegistryLink) : String :=
  "HttpRegistryApi \x7b base_url: " ++ Text.quoted link.base ++ ", timeout: " ++
    link.timeout.text ++ ", .. \x7d"

/-- The address of the services of one role. The name is written as one pair of the query, whatever
characters it holds. -/
def servicesAddress (link : RegistryLink) (role : Role) : Except MemberError String :=
  match Net.Url.ofText? (link.base ++ Wire.servicesPath) with
  | some url => .ok (url.withPair Wire.roleParameter role.text).text
  | none => .error (.configuration "invalid registry URL")

/-- Prepares a request. One that cannot leave is a trouble of the transport, as one that gets no
answer is. -/
def prepare (method address : String) (contentType? key? : Option String) (body : Bytes) :
    Except MemberError Outgoing :=
  (Http.prepare method address contentType? key? body).mapError fun e => .transport e.message

def registerRequest (link : RegistryLink) (reg : Registration) : Except MemberError Outgoing :=
  prepare "POST" (link.base ++ Wire.servicesPath) (some "application/json") (some link.key.secret)
    reg.bytes

def heartbeatRequest (link : RegistryLink) (id : InstanceId) : Except MemberError Outgoing :=
  prepare "POST" (link.base ++ Wire.basicHeartbeatPath) (some "text/plain") none
    (Text.Utf8.ofString id.text)

def deregisterRequest (link : RegistryLink) (role : Role) (url : String) :
    Except MemberError Outgoing := do
  prepare "DELETE" (← link.servicesAddress role) (some "text/plain") none (Text.Utf8.ofString url)

def queryRequest (link : RegistryLink) (role : Role) : Except MemberError Outgoing := do
  prepare "GET" (← link.servicesAddress role) none none []

/-- The status and the body of an answer, if one came. Each way to get none is told apart. -/
def receive (link : RegistryLink) : Exchange → Except MemberError (Status × Bytes)
  | .answered status body => .ok (status, body)
  | .silent => .error (.timeout link.timeout)
  | .broken => .error (.transport "the connection was closed")
  | .unreachable => .error (.transport "the registry cannot be reached")

/-- What a call comes to, given what comes back for it: its request has to be fit to leave, an answer
has to come, and the answer has to make sense. -/
def call {α : Type} (link : RegistryLink) (request : Except MemberError Outgoing)
    (read : Status × Bytes → Except MemberError α) (x : Exchange) : Except MemberError α := do
  let _ ← request
  read (← link.receive x)

/-- The body of an answer that grants what was asked. Only 200 grants; 401 means that the registry
does not know the instance or its key. -/
def granted : Status × Bytes → Except MemberError Bytes
  | (status, body) =>
    if status = .ok then .ok body
    else if status = .unauthorized then .error .unauthorized
    else .error (.status status)

def readText (body : Bytes) : Except MemberError String :=
  match Text.Utf8.fault? body with
  | some fault => .error (.malformed (.notText fault))
  | none => .ok (String.ofList (Text.Utf8.lossy body))

/-- The identifier in the answer to a registration. A blank one is none. -/
def readId (answer : Status × Bytes) : Except MemberError InstanceId := do
  let id := InstanceId.ofText (← readText (← granted answer))
  if id.isEmpty then .error (.malformed .emptyId) else .ok id

/-- An answer that carries nothing. -/
def readNothing (answer : Status × Bytes) : Except MemberError Unit := do
  let _ ← granted answer

/-- The instances in the answer to a query. If one of them cannot be read the whole answer counts
for nothing. -/
def readList (answer : Status × Bytes) : Except MemberError (List Registration) := do
  let body ← granted answer
  match (Json.Value.ofBytes? body).bind (Json.Value.list? Registration.ofJson?) with
  | some regs => .ok regs
  | none => .error (.malformed .undecodable)

end RegistryLink
end Rollcall
