import Rollcall.Duration
import Rollcall.Http.Status
import Rollcall.Registration
import Rollcall.Text.Quoted

/-!
# What can go wrong between an instance and its registry

One cause per way to fail. Only `unauthorized` changes what an instance does next: it says that the
registry has lost track of it.
-/

namespace Rollcall

inductive AnswerFlaw where
  /-- The registry issued a blank identifier. -/
  | emptyId
  /-- The body is not text. -/
  | notText (fault : Text.Utf8.Fault)
  /-- The body is text, but no IPv4 address. -/
  | notAddress (found : String)
  /-- The body is not the list of registrations that was asked for. -/
  | undecodable
  /-- A flaw given in words. -/
  | other (detail : String)
  deriving Repr, DecidableEq

def AnswerFlaw.message : AnswerFlaw → String
  | emptyId => "empty service ID"
  | notText fault => fault.message
  | notAddress found => "not an IPv4 address: " ++ Text.quoted found
  | undecodable => "the body is not a list of registrations"
  | other detail => detail

/-- What an instance can meet when it takes part in the registry. Two causes are told apart by what
an instance does next: it registers again when it is not recognised, and it stops when it is
cancelled. All others are left to the next attempt. -/
inductive MemberError where
  /-- The registry does not recognise this instance or its key. -/
  | unauthorized
  /-- The registry answered with a status that means nothing here. -/
  | status (status : Http.Status)
  /-- The request got no answer. -/
  | transport (detail : String)
  /-- The request took longer than it may. -/
  | timeout (after : Duration)
  /-- No patch has ever mentioned the role. -/
  | notFound (role : Role)
  /-- Shutdown began first. -/
  | cancelled
  /-- The address to listen on is taken. -/
  | bind (detail : String)
  | malformed (flaw : AnswerFlaw)
  | configuration (detail : String)
  | input (error : InputError)
  | io (detail : String)
  deriving Repr, DecidableEq

namespace MemberError

def message : MemberError → String
  | unauthorized => "registry rejected the request as unauthorized"
  | status s => "registry responded " ++ s.text
  | transport detail => "transport error: " ++ detail
  | timeout after => "request timed out after " ++ after.text
  | notFound role => "no providers known for " ++ role.text
  | cancelled => "cancelled"
  | bind detail => "failed to bind listener: " ++ detail
  | malformed flaw => "malformed response: " ++ flaw.message
  | configuration detail => "configuration error: " ++ detail
  | input error => error.message
  | io detail => "I/O error: " ++ detail

/-- Whether the registry has lost track of this instance. A wrong key is answered in the same way
and cannot be told apart. -/
def isUnauthorized : MemberError → Bool
  | unauthorized => true
  | _ => false

end MemberError
end Rollcall
