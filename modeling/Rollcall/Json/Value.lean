import Rollcall.Json.Token

/-!
# JSON values

Tokens nest into values. The reader keeps, for each array or object it is inside of, what it has
found there; nesting has no limit but the text's own length. Members stay in the order in which
they are written, repeated keys included: what a repeated key means is for the record's reader to
say.
-/

namespace Rollcall.Json

open Text (Bytes)

/-- A JSON value. Numbers and strings keep their written form, so a value has one written form; that
of objects keeps the order of their members and any repetitions. -/
inductive Value where
  | null
  | bool (b : Bool)
  | number (lexeme : Bytes)
  | string (raw : Bytes)
  | array (items : List Value)
  | object (members : List (Bytes × Value))
  deriving Repr

/-- A container around the value being read; what it holds so far is kept last first. -/
inductive Frame where
  | array (done : List Value)
  /-- An object whose member `key` waits for its value. -/
  | member (done : List (Bytes × Value)) (key : Bytes)

/-- What may come next: the state of the reader between two tokens. -/
inductive Awaiting where
  | value (outer : List Frame)
  | itemOrClose (outer : List Frame)
  | keyOrClose (outer : List Frame)
  | nextKey (done : List (Bytes × Value)) (outer : List Frame)
  | colonAfter (done : List (Bytes × Value)) (key : Bytes) (outer : List Frame)
  | moreItems (done : List Value) (outer : List Frame)
  | moreMembers (done : List (Bytes × Value)) (outer : List Frame)
  /-- The whole value has been read. -/
  | nothing (whole : Value)

namespace Awaiting

/-- Puts a finished value into the container around it, which may then go on or end. -/
def give (v : Value) : List Frame → Awaiting
  | [] => .nothing v
  | .array done :: outer => .moreItems (v :: done) outer
  | .member done key :: outer => .moreMembers ((key, v) :: done) outer

/-- Takes a token that begins a value. -/
def begin? (outer : List Frame) : Token → Option Awaiting
  | .null => some (give .null outer)
  | .bool b => some (give (.bool b) outer)
  | .number lexeme => some (give (.number lexeme) outer)
  | .string raw => some (give (.string raw) outer)
  | .openArray => some (.itemOrClose outer)
  | .openObject => some (.keyOrClose outer)
  | _ => none

def push? (s : Awaiting) (t : Token) : Option Awaiting :=
  match s, t with
  | .value outer, t => begin? outer t
  | .itemOrClose outer, .closeArray => some (give (.array []) outer)
  | .itemOrClose outer, t => begin? (.array [] :: outer) t
  | .keyOrClose outer, .closeObject => some (give (.object []) outer)
  | .keyOrClose outer, .string key => some (.colonAfter [] key outer)
  | .nextKey done outer, .string key => some (.colonAfter done key outer)
  | .colonAfter done key outer, .colon => some (.value (.member done key :: outer))
  | .moreItems done outer, .comma => some (.value (.array done :: outer))
  | .moreItems done outer, .closeArray => some (give (.array done.reverse) outer)
  | .moreMembers done outer, .comma => some (.nextKey done outer)
  | .moreMembers done outer, .closeObject => some (give (.object done.reverse) outer)
  | _, _ => none

def whole? : Awaiting → Option Value
  | .nothing v => some v
  | _ => none

end Awaiting

namespace Value

/-- The value that tokens spell, if they spell one and no more. -/
def ofTokens? (tokens : List Token) : Option Value :=
  (tokens.foldlM Awaiting.push? (.value [])).bind Awaiting.whole?

/-- The value that a text spells, with nothing but space around it. It does not matter how deep the
value is nested. -/
def ofBytes? (bytes : Bytes) : Option Value := (Token.ofBytes? bytes).bind ofTokens?

end Value
end Rollcall.Json
