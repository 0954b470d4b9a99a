import Rollcall.Http.Status
import Rollcall.Http.Target
import Rollcall.Json.Writer

/-!
# Requests and replies

A request as a server gets it, and a reply as it gives it. Header names do not care for case. Of
several headers of one name the first counts, and a value that is not printable ASCII counts as if
the header were not there.
-/

namespace Rollcall.Http

open Text (Bytes)

/-- A header with its value as raw bytes, since what cannot be read is passed over later and not
refused. -/
structure Header where
  name : String
  value : Bytes
  deriving Repr, DecidableEq

/-- A request as a server gets it, with its target already taken apart. -/
structure Request where
  method : String
  target : Target
  headers : List Header := []
  body : Bytes := []
  deriving Repr, DecidableEq

/-- Whether a byte of a header's value is a visible ASCII character, a space or a tab. -/
def isPrintableByte (b : UInt8) : Bool := (0x20 ≤ b && b < 0x7F) || b = 0x09

/-- The text of a header's value, if it is printable ASCII throughout. One byte that is not makes
the whole value unreadable. -/
def headerText? (value : Bytes) : Option String :=
  if value.all isPrintableByte then some (String.ofList (value.map fun b => Char.ofNat b.toNat))
  else none

def Request.header? (r : Request) (name : String) : Option String :=
  (r.headers.find? fun h => h.name.toLower = name.toLower).bind fun h => headerText? h.value

def Request.query (r : Request) : Bytes := Text.Utf8.ofString (r.target.query?.getD "")

/-- Why a request is turned away before anyone looks at what it asks for. These are the ways in
which a body, a query or a path cannot be taken apart. -/
inductive Refusal where
  /-- The body has more bytes than a server takes. -/
  | bodyTooLarge
  /-- The body has to be text and is not UTF-8. -/
  | bodyNotText
  /-- A parameter of the query is given twice. -/
  | queryRepeated
  /-- A part of the path is not UTF-8. -/
  | pathNotText
  deriving Repr, DecidableEq

namespace Refusal

def status : Refusal → Status
  | bodyTooLarge => .payloadTooLarge
  | _ => .badRequest

def message : Refusal → String
  | bodyTooLarge => "the body is too large"
  | bodyNotText => "the body is not UTF-8"
  | queryRepeated => "a parameter is given twice"
  | pathNotText => "the path is not UTF-8"

end Refusal

inductive Content where
  | empty
  | text (s : String)
  | json (v : Json.Value)
  /-- The reason why the request was turned away. -/
  | refusal (r : Refusal)
  deriving Repr

def Content.bytes : Content → Bytes
  | empty => []
  | text s => Text.Utf8.ofString s
  | json v => v.render
  | refusal r => Text.Utf8.ofString r.message

structure Reply where
  status : Status
  content : Content := .empty
  deriving Repr

namespace Reply

/-- A reply that says nothing but its status. -/
def bare (status : Status) : Reply := ⟨status, .empty⟩

def refuse (r : Refusal) : Reply := ⟨r.status, .refusal r⟩

end Reply

/-- The most bytes a server takes as a body: two binary megabytes. -/
def bodyLimit : Nat := 2097152

/-- The body of a request, if it is not too large. Nothing of a body that is too large is kept. -/
def Request.takeBody (r : Request) : Except Refusal Bytes :=
  if bodyLimit < r.body.length then .error .bodyTooLarge else .ok r.body

def Request.takeText (r : Request) : Except Refusal String := do
  match Text.Utf8.string? (← r.takeBody) with
  | some s => .ok s
  | none => .error .bodyNotText

end Rollcall.Http
