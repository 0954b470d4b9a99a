import Rollcall.Json.Literal

/-!
# Writing JSON

The compact form: no space between tokens, members in the order of the value.
-/

namespace Rollcall.Json

open Text (Bytes)

def Token.bytes : Token → Bytes
  | .openArray => [ascii '[']
  | .closeArray => [ascii ']']
  | .openObject => [ascii '\x7b']
  | .closeObject => [ascii '\x7d']
  | .comma => [ascii ',']
  | .colon => [ascii ':']
  | .null => asciiWord "null"
  | .bool true => asciiWord "true"
  | .bool false => asciiWord "false"
  | .number lexeme => lexeme
  | .string raw => ascii '"' :: (raw ++ [ascii '"'])

mutual

/-- The tokens that spell a value. -/
def Value.tokens : Value → List Token
  | .null => [.null]
  | .bool b => [.bool b]
  | .number lexeme => [.number lexeme]
  | .string raw => [.string raw]
  | .array [] => [.openArray, .closeArray]
  | .array (v :: vs) => .openArray :: (v.tokens ++ itemTokens vs ++ [.closeArray])
  | .object [] => [.openObject, .closeObject]
  | .object ((key, v) :: ms) =>
    .openObject :: .string key :: .colon :: (v.tokens ++ memberTokens ms ++ [.closeObject])

def itemTokens : List Value → List Token
  | [] => []
  | v :: vs => .comma :: (v.tokens ++ itemTokens vs)

def memberTokens : List (Bytes × Value) → List Token
  | [] => []
  | (key, v) :: ms => .comma :: .string key :: .colon :: (v.tokens ++ memberTokens ms)

end

/-- The compact written form of a value, without any space between tokens. -/
def Value.render (v : Value) : Bytes := v.tokens.flatMap Token.bytes

/-- The written form as text; the bytes are UTF-8 whenever those of the value's strings are. -/
def Value.renderText (v : Value) : String := String.ofList (Text.Utf8.lossy v.render)

end Rollcall.Json
