import Rollcall.Http.Message

/-!
# Asking another server

A client first prepares a request, which fails if the address is no absolute one or a header cannot
be written, and then sends it. What comes back is an exchange: an answer, or one of the ways to get
none.
-/

namespace Rollcall.Http

open Text (Bytes)

/-- A request as it leaves for a server. Of its headers only those that matter to a registry are
kept. -/
structure Outgoing where
  method : String
  /-- Path and query. -/
  target : String
  contentType? : Option String := none
  /-- The shared key, if the request carries it. -/
  key? : Option String := none
  body : Bytes := []
  deriving Repr, DecidableEq

/-- What comes back for a request. This is all that is known of the network: theorems are about any
exchange, and so about any behaviour of it. -/
inductive Exchange where
  | answered (status : Status) (body : Bytes)
  /-- The connection was closed before there was a whole answer. -/
  | broken
  /-- No answer came in time. -/
  | silent
  /-- Nobody takes connections at the address. -/
  | unreachable
  deriving Repr, DecidableEq

/-- Whether a server has got the request. -/
def Exchange.reached : Exchange → Bool
  | unreachable => false
  | _ => true

/-- Whether a text can be the value of a header: it holds no control character but the tab. -/
def canBeHeader (s : String) : Bool :=
  s.toList.all fun c => c = '\t' || (0x20 ≤ c.toNat && c.toNat ≠ 0x7F)

def Target.pathAndQuery (t : Target) : String :=
  match t.query? with
  | some query => t.path ++ "?" ++ query
  | none => t.path

inductive Unsendable where
  /-- The address is no request target. -/
  | address
  /-- The key cannot be the value of a header. -/
  | header
  /-- The address is not an absolute one of the plain protocol. -/
  | relative
  deriving Repr, DecidableEq

def Unsendable.message : Unsendable → String
  | address => "the address is not valid"
  | header => "the key cannot be sent in a header"
  | relative => "the address is not an absolute one"

/-- Prepares a request to an address, which has to be an absolute one of the plain protocol. The
address is looked at before the headers are. -/
def prepare (method address : String) (contentType? key? : Option String) (body : Bytes) :
    Except Unsendable Outgoing :=
  match Target.ofText? address with
  | none => .error .address
  | some target =>
    if !(key?.all canBeHeader) then .error .header
    else if target.scheme?.map String.toLower ≠ some "http" then .error .relative
    else .ok ⟨method, target.pathAndQuery, contentType?, key?, body⟩

end Rollcall.Http
