import Rollcall.Http.Exchange
import Rollcall.Membership.Error
import Rollcall.RegistryLink

/-!
# The address that others see

Behind a gateway an instance cannot know the address that peers have to dial, so it asks an echo
service. The answer is the bare address in dotted decimal, with space around it allowed.
-/

namespace Rollcall.PublicAddress

open Http (Exchange Outgoing Status)

def request (address : String) : Except MemberError Outgoing :=
  match Http.prepare "GET" address none none [] with
  | .ok request => .ok request
  | .error .address => .error (.configuration "invalid echo URL")
  | .error e => .error (.transport e.message)

/-- The address in an answer: the status is looked at first, then whether the body is text, then
whether the text is an address. -/
def read (status : Status) (body : Text.Bytes) : Except MemberError Net.IPv4 := do
  if status ≠ .ok then .error (.status status)
  let text := Text.trimmed (← RegistryLink.readText body)
  match Net.IPv4.ofText? text with
  | some ip => .ok ip
  | none => .error (.malformed (.notAddress text))

/-- What asking an echo service comes to. An address that cannot be asked is told before anything is
sent. -/
def discover (address : String) (timeout : Duration) (x : Exchange) :
    Except MemberError Net.IPv4 := do
  let _ ← request address
  match x with
  | .answered status body => read status body
  | .silent => .error (.timeout timeout)
  | .broken => .error (.transport "the connection was closed")
  | .unreachable => .error (.transport "the echo service cannot be reached")

end Rollcall.PublicAddress
