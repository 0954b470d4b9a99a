import Rollcall.Json.Value
import Rollcall.Text.Digits

/-!
# JSON strings and the texts they stand for

Between its quotes a string is UTF-8 with escapes. Reading resolves the escapes: a letter behind a
backslash, or a code unit in four hexadecimal digits, where a code point beyond U+FFFF takes two
units, a high and a low surrogate, and neither may stand alone. Writing escapes what must be
escaped (quotes, backslashes and controls) and nothing else.
-/

namespace Rollcall.Json

open Text (Bytes)

/-- Where a reader of a string stands. A high surrogate is carried until its low one has been read,
since only both together are a character. -/
inductive Unescaping where
  | plain
  | backslash
  /-- Inside a code unit: the digits still to come and the value so far. -/
  | unit (left : Nat) (value : Nat) (high? : Option Nat)
  /-- A high surrogate has been read and a backslash must follow. -/
  | paired (high : Nat)
  /-- A high surrogate and a backslash have been read and a `u` must follow. -/
  | pairedBackslash (high : Nat)

/-- The reader of a string: the characters found, last first, and what is open. -/
structure Unescape where
  chars : List Char := []
  mode : Unescaping := .plain

namespace Unescape

/-- The character that a letter behind a backslash stands for. -/
def short? : Char → Option Char
  | '"' => some '"'
  | '\\' => some '\\'
  | '/' => some '/'
  | 'b' => some '\x08'
  | 'f' => some '\x0c'
  | 'n' => some '\n'
  | 'r' => some '\r'
  | 't' => some '\t'
  | _ => none

def isHigh (unit : Nat) : Bool := 0xD800 ≤ unit && unit < 0xDC00

def isLow (unit : Nat) : Bool := 0xDC00 ≤ unit && unit < 0xE000

/-- The code point of a pair of surrogates. -/
def combine (high low : Nat) : Nat := 0x10000 + (high - 0xD800) * 0x400 + (low - 0xDC00)

def unit? (chars : List Char) (unit : Nat) : Option Nat → Option Unescape
  | some high => if isLow unit then some ⟨Char.ofNat (combine high unit) :: chars, .plain⟩ else none
  | none =>
    if isLow unit then none
    else if isHigh unit then some ⟨chars, .paired unit⟩
    else some ⟨Char.ofNat unit :: chars, .plain⟩

def push? (s : Unescape) (c : Char) : Option Unescape :=
  match s.mode with
  | .plain => some (if c = '\\' then ⟨s.chars, .backslash⟩ else ⟨c :: s.chars, .plain⟩)
  | .backslash =>
    if c = 'u' then some ⟨s.chars, .unit 4 0 none⟩
    else (short? c).map fun d => ⟨d :: s.chars, .plain⟩
  | .unit left value high? =>
    (Text.digit? 16 c).bind fun d =>
      let value := value * 16 + d
      if left = 1 then unit? s.chars value high? else some ⟨s.chars, .unit (left - 1) value high?⟩
  | .paired high => if c = '\\' then some ⟨s.chars, .pairedBackslash high⟩ else none
  | .pairedBackslash high => if c = 'u' then some ⟨s.chars, .unit 4 0 (some high)⟩ else none

/-- The characters in order, if the string may end here. -/
def close? (s : Unescape) : Option (List Char) :=
  match s.mode with
  | .plain => some s.chars.reverse
  | _ => none

end Unescape

/-- The characters that a string stands for. Its bytes have to be UTF-8 and its surrogates paired,
which is asked only where the text of a string is wanted. -/
def unescape? (raw : Bytes) : Option (List Char) := do
  let chars ← Text.Utf8.decode? raw
  (chars.foldlM Unescape.push? {}).bind Unescape.close?

def escapeChar (c : Char) : List Char :=
  match c with
  | '"' => ['\\', '"']
  | '\\' => ['\\', '\\']
  | '\x08' => ['\\', 'b']
  | '\t' => ['\\', 't']
  | '\n' => ['\\', 'n']
  | '\x0c' => ['\\', 'f']
  | '\r' => ['\\', 'r']
  | c =>
    if c.toNat < 0x20 then '\\' :: 'u' :: Text.zeroFilled 4 (Text.hexadecimal c.toNat) else [c]

/-- What stands between the quotes of a text: quotes, backslashes and controls are escaped, and
nothing else. -/
def escape (chars : List Char) : Bytes := Text.Utf8.encode (chars.flatMap escapeChar)

namespace Value

def text? : Value → Option String
  | .string raw => (unescape? raw).map String.ofList
  | _ => none

def text (s : String) : Value := .string (escape s.toList)

def nat (n : Nat) : Value := .number (Text.Utf8.encode (Text.decimal n))

end Value
end Rollcall.Json
