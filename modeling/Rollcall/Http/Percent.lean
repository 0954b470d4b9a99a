import Rollcall.Text.Digits
import Rollcall.Text.Utf8

/-!
# Percent-encoding

A byte that may not stand for itself is written as `%` and two hexadecimal digits. The reader takes
digits of either case and leaves a `%` alone that is not followed by two digits.
-/

namespace Rollcall.Http

open Text (Bytes)

/-- The byte of an ASCII character. -/
def byte (c : Char) : UInt8 := c.toUInt8

def hexValue? (b : UInt8) : Option Nat :=
  if b < 0x80 then Text.digit? 16 (Char.ofNat b.toNat) else none

def hexByte (n : Nat) : UInt8 := UInt8.ofNat (if n < 10 then 48 + n else 55 + n)

/-- A byte as `%` and two digits. -/
def percentByte (b : UInt8) : Bytes :=
  [byte '%', hexByte (b.toNat / 16), hexByte (b.toNat % 16)]

/-- Resolves every escape. -/
def percentDecode : Bytes → Bytes
  | b :: rest@(high :: low :: rest') =>
    if b = byte '%' then
      match hexValue? high, hexValue? low with
      | some h, some l => UInt8.ofNat (h * 16 + l) :: percentDecode rest'
      | _, _ => b :: percentDecode rest
    else b :: percentDecode rest
  | short => short

end Rollcall.Http
