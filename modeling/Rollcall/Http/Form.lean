import Rollcall.Http.Percent
import Rollcall.Text.Split

/-!
# Form-encoded pairs

A query holds pairs of a name and a value: `name=value` joined by `&`. Letters, digits and `*-._`
stand for themselves, a space is written `+`, and every other byte of the text is escaped, so no
text can end its pair early or begin another one.

    encodePair name value    the written form of one pair
    pairs query              the pairs that a query holds
-/

namespace Rollcall.Http.Form

open Text (Bytes)

/-- Whether a byte stands for itself. -/
def isPlain (b : UInt8) : Bool :=
  (byte '0' ≤ b && b ≤ byte '9') || (byte 'a' ≤ b && b ≤ byte 'z') ||
    (byte 'A' ≤ b && b ≤ byte 'Z') || b = byte '*' || b = byte '-' || b = byte '.' || b = byte '_'

def encodeByte (b : UInt8) : Bytes :=
  if isPlain b then [b] else if b = byte ' ' then [byte '+'] else percentByte b

/-- The written form of a text, byte by byte. No sign that ends a name, a value or a pair is left in
it. -/
def encode (s : String) : Bytes := (Text.Utf8.ofString s).flatMap encodeByte

def encodePair (name value : String) : Bytes := encode name ++ byte '=' :: encode value

/-- The text of a written form. Escapes that are none stand for themselves, and what is not UTF-8 is
read as the replacement character, so everything means some text. -/
def decode (bytes : Bytes) : String :=
  let spaced := bytes.map fun b => if b = byte '+' then byte ' ' else b
  String.ofList (Text.Utf8.lossy (percentDecode spaced))

/-- A pair from its written form; without `=` the value is empty. -/
def pair (bytes : Bytes) : String × String :=
  match Text.cut (byte '=') bytes with
  | (name, value?) => (decode name, decode (value?.getD []))

/-- The pairs of a query, in order. -/
def pairs (query : Bytes) : List (String × String) :=
  ((Text.splitOn (byte '&') query).filter (!·.isEmpty)).map pair

end Rollcall.Http.Form
