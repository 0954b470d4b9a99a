import Rollcall.Text.Utf8

/-!
# JSON tokens

A JSON text is first cut into tokens. The machine below reads it byte by byte and needs no look
ahead: a number ends at the first byte that cannot continue it, and that byte is read afresh.

    bytes ──Token.ofBytes?──▶ tokens ──Value.ofTokens?──▶ value

A string token keeps the bytes between its quotes as they stand. Here only its shape is checked (no
control character, every escape well formed); whether the bytes are characters is asked when a
reader wants the text, so that a member nobody asks for may hold what it likes.
-/

namespace Rollcall.Json

open Text (Bytes)

def ascii (c : Char) : UInt8 := c.toUInt8

def asciiWord (s : String) : Bytes := s.toList.map ascii

/-- The smallest parts of a JSON text. Numbers and strings are kept as they are written, and not yet
looked into. -/
inductive Token where
  | openArray
  | closeArray
  | openObject
  | closeObject
  | comma
  | colon
  | null
  | bool (b : Bool)
  /-- A number as it is written. -/
  | number (lexeme : Bytes)
  /-- What stands between the quotes of a string, escapes included. -/
  | string (raw : Bytes)
  deriving Repr, DecidableEq

/-- How far the reading of a number has come. -/
inductive NumberPart where
  | sign
  | zero
  | whole
  | point
  | fraction
  | exponent
  | exponentSign
  | exponentDigits
  deriving Repr, DecidableEq

def isDigit (b : UInt8) : Bool := ascii '0' ≤ b && b ≤ ascii '9'

def isHexDigit (b : UInt8) : Bool :=
  isDigit b || (ascii 'a' ≤ b && b ≤ ascii 'f') || (ascii 'A' ≤ b && b ≤ ascii 'F')

def isExponentMark (b : UInt8) : Bool := b = ascii 'e' || b = ascii 'E'

/-- The part of the number that a byte begins or continues, if it does. -/
def NumberPart.next? (part : NumberPart) (b : UInt8) : Option NumberPart :=
  match part with
  | .sign => if b = ascii '0' then some .zero else if isDigit b then some .whole else none
  | .zero =>
    if b = ascii '.' then some .point else if isExponentMark b then some .exponent else none
  | .whole =>
    if isDigit b then some .whole
    else if b = ascii '.' then some .point
    else if isExponentMark b then some .exponent
    else none
  | .point => if isDigit b then some .fraction else none
  | .fraction =>
    if isDigit b then some .fraction else if isExponentMark b then some .exponent else none
  | .exponent =>
    if isDigit b then some .exponentDigits
    else if b = ascii '+' || b = ascii '-' then some .exponentSign
    else none
  | .exponentSign => if isDigit b then some .exponentDigits else none
  | .exponentDigits => if isDigit b then some .exponentDigits else none

/-- Whether a number may end here. -/
def NumberPart.complete : NumberPart → Bool
  | .zero | .whole | .fraction | .exponentDigits => true
  | _ => false

/-- What the machine is inside of. What has been taken of a lexeme is kept last byte first. -/
inductive Mode where
  | between
  /-- A word of which `rest` is still to come. -/
  | word (rest : Bytes) (token : Token)
  | number (part : NumberPart) (taken : Bytes)
  | string (taken : Bytes)
  /-- Behind a backslash. -/
  | escape (taken : Bytes)
  /-- Before the last `left` digits of a code point. -/
  | codePoint (left : Nat) (taken : Bytes)

/-- The machine: the tokens found, last first, and what it is inside of. -/
structure Lexer where
  tokens : List Token := []
  mode : Mode := .between

namespace Lexer

/-- Adds a token and stands between tokens again. -/
def emit (tokens : List Token) (t : Token) : Lexer := ⟨t :: tokens, .between⟩

/-- The four characters that may stand between tokens. -/
def isSpace (b : UInt8) : Bool :=
  b = ascii ' ' || b = ascii '\t' || b = ascii '\n' || b = ascii '\r'

/-- The characters that may follow a backslash on their own. -/
def isShortEscape (b : UInt8) : Bool :=
  b = ascii '"' || b = ascii '\\' || b = ascii '/' || b = ascii 'b' || b = ascii 'f' ||
    b = ascii 'n' || b = ascii 'r' || b = ascii 't'

/-- Takes a byte that stands between tokens. -/
def begin? (tokens : List Token) (b : UInt8) : Option Lexer :=
  if isSpace b then some ⟨tokens, .between⟩
  else if b = ascii '[' then some (emit tokens .openArray)
  else if b = ascii ']' then some (emit tokens .closeArray)
  else if b = ascii '\x7b' then some (emit tokens .openObject)
  else if b = ascii '\x7d' then some (emit tokens .closeObject)
  else if b = ascii ',' then some (emit tokens .comma)
  else if b = ascii ':' then some (emit tokens .colon)
  else if b = ascii '"' then some ⟨tokens, .string []⟩
  else if b = ascii 'n' then some ⟨tokens, .word (asciiWord "ull") .null⟩
  else if b = ascii 't' then some ⟨tokens, .word (asciiWord "rue") (.bool true)⟩
  else if b = ascii 'f' then some ⟨tokens, .word (asciiWord "alse") (.bool false)⟩
  else if b = ascii '-' then some ⟨tokens, .number .sign [b]⟩
  else (NumberPart.sign.next? b).map fun part => ⟨tokens, .number part [b]⟩

/-- Takes the next byte. A byte that ends a number is looked at anew, between tokens. -/
def push? (s : Lexer) (b : UInt8) : Option Lexer :=
  match s.mode with
  | .between => begin? s.tokens b
  | .word [] _ => none
  | .word (c :: rest) token =>
    if b ≠ c then none
    else if rest.isEmpty then some (emit s.tokens token)
    else some ⟨s.tokens, .word rest token⟩
  | .number part taken =>
    match part.next? b with
    | some part => some ⟨s.tokens, .number part (b :: taken)⟩
    | none => if part.complete then begin? (.number taken.reverse :: s.tokens) b else none
  | .string taken =>
    if b = ascii '"' then some (emit s.tokens (.string taken.reverse))
    else if b = ascii '\\' then some ⟨s.tokens, .escape (b :: taken)⟩
    -- Control characters have to be escaped.
    else if b < 0x20 then none
    else some ⟨s.tokens, .string (b :: taken)⟩
  | .escape taken =>
    if b = ascii 'u' then some ⟨s.tokens, .codePoint 4 (b :: taken)⟩
    else if isShortEscape b then some ⟨s.tokens, .string (b :: taken)⟩
    else none
  | .codePoint left taken =>
    if isHexDigit b then
      some ⟨s.tokens, if left = 1 then .string (b :: taken) else .codePoint (left - 1) (b :: taken)⟩
    else none

/-- The tokens in order, if the text may end here. -/
def close? (s : Lexer) : Option (List Token) :=
  match s.mode with
  | .between => some s.tokens.reverse
  | .number part taken =>
    if part.complete then some (.number taken.reverse :: s.tokens).reverse else none
  | _ => none

end Lexer

def Token.ofBytes? (bytes : Bytes) : Option (List Token) :=
  (bytes.foldlM Lexer.push? {}).bind Lexer.close?

end Rollcall.Json
