/-!
# UTF-8, read one byte at a time

Bodies and paths are bytes; names and identifiers are characters. A scan walks over the bytes once
and cuts them into pieces: a character, a broken run that no continuation could mend, or a
character that the end of the input cut off. A broken run is as long as it could still have become
a character, so that reading goes on at the first byte that did not fit.

    bytes ──scan──▶ pieces ──┬─ decode?   all characters, or nothing
                             ├─ fault?    where the first piece stands that is no character
                             └─ lossy     every other piece replaced by U+FFFD
-/

namespace Rollcall.Text

/-- Raw bytes, as bodies and paths carry them. -/
abbrev Bytes := List UInt8

namespace Utf8

/-- What a stretch of bytes holds: a character, or bytes that are none. Bytes that are none are cut
as finely as readers do that replace each such piece by one character. -/
inductive Piece where
  /-- A character, complete and in its shortest form. -/
  | char (c : Char)
  /-- A run of so many bytes that is the beginning of no character. -/
  | broken (length : Nat)
  /-- The first bytes of a character whose rest is missing at the end of the input. -/
  | cut (length : Nat)
  deriving Repr, DecidableEq

/-- A character of which some bytes are still to come, and the bounds for the next of them. -/
structure Partial where
  /-- The bits gathered so far. -/
  bits : Nat
  /-- How many bytes have been read. -/
  taken : Nat
  /-- How many bytes are missing. -/
  missing : Nat
  /-- The least value the next byte may have. -/
  low : UInt8
  /-- The greatest value the next byte may have. -/
  high : UInt8
  deriving Repr, DecidableEq

/-- What a first byte begins: a character of its own, a longer character, or nothing. The ranges
for the second byte leave out overlong forms, surrogates and code points beyond U+10FFFF. -/
def start (b : UInt8) : Piece ⊕ Partial :=
  if b < 0x80 then .inl (.char (Char.ofNat b.toNat))
  else if b < 0xC2 then .inl (.broken 1)
  else if b < 0xE0 then .inr ⟨b.toNat - 0xC0, 1, 1, 0x80, 0xBF⟩
  else if b < 0xF0 then
    let low := if b = 0xE0 then 0xA0 else 0x80
    let high := if b = 0xED then 0x9F else 0xBF
    .inr ⟨b.toNat - 0xE0, 1, 2, low, high⟩
  else if b < 0xF5 then
    let low := if b = 0xF0 then 0x90 else 0x80
    let high := if b = 0xF4 then 0x8F else 0xBF
    .inr ⟨b.toNat - 0xF0, 1, 3, low, high⟩
  else .inl (.broken 1)

/-- A scan in progress: the pieces found, last first, and the character being read. -/
structure Scan where
  pieces : List Piece := []
  open? : Option Partial := none

/-- Takes a byte with no character open. -/
def Scan.begin (pieces : List Piece) (b : UInt8) : Scan :=
  match start b with
  | .inl piece => ⟨piece :: pieces, none⟩
  | .inr opened => ⟨pieces, some opened⟩

/-- Takes the next byte. It continues the open character, or ends it as broken and is then looked at
anew, as the first byte of another one. -/
def Scan.push (s : Scan) (b : UInt8) : Scan :=
  match s.open? with
  | none => .begin s.pieces b
  | some p =>
    if p.low ≤ b && b ≤ p.high then
      let bits := p.bits * 64 + (b.toNat - 0x80)
      if p.missing = 1 then ⟨.char (Char.ofNat bits) :: s.pieces, none⟩
      else ⟨s.pieces, some ⟨bits, p.taken + 1, p.missing - 1, 0x80, 0xBF⟩⟩
    else .begin (.broken p.taken :: s.pieces) b

/-- The pieces in order, with what the end of the input cut off. -/
def Scan.close (s : Scan) : List Piece :=
  match s.open? with
  | none => s.pieces.reverse
  | some p => (.cut p.taken :: s.pieces).reverse

/-- Cuts bytes into pieces, one byte at a time and without looking back. -/
def scan (bytes : Bytes) : List Piece := (bytes.foldl Scan.push {}).close

def encode (cs : List Char) : Bytes := cs.flatMap String.utf8EncodeChar

def ofString (s : String) : Bytes := encode s.toList

def Piece.size : Piece → Nat
  | .char c => c.utf8Size
  | .broken n => n
  | .cut n => n

def Piece.char? : Piece → Option Char
  | .char c => some c
  | _ => none

/-- Where a text stops being UTF-8. -/
structure Fault where
  /-- How many bytes before it are sound. -/
  index : Nat
  /-- How long the broken run is; nothing, if the input ended inside a character. -/
  length? : Option Nat
  deriving Repr, DecidableEq

/-- The first piece that is no character, counted from `index`, with its length unless the text ends
within it. -/
def faultFrom? (index : Nat) : List Piece → Option Fault
  | [] => none
  | .broken n :: _ => some ⟨index, some n⟩
  | .cut _ :: _ => some ⟨index, none⟩
  | .char c :: rest => faultFrom? (index + c.utf8Size) rest

/-- Where the bytes stop being UTF-8, if they do. -/
def fault? (bytes : Bytes) : Option Fault := faultFrom? 0 (scan bytes)

def decode? (bytes : Bytes) : Option (List Char) := (scan bytes).mapM Piece.char?

def string? (bytes : Bytes) : Option String := (decode? bytes).map String.ofList

def replacement : Char := Char.ofNat 0xFFFD

/-- Reads every piece that is no character as the replacement character, so that all bytes mean some
text. -/
def lossy (bytes : Bytes) : List Char := (scan bytes).map fun p => p.char?.getD replacement

/-- How a fault is told to a reader. -/
def Fault.message (f : Fault) : String :=
  match f.length? with
  | some n => "invalid utf-8 sequence of " ++ toString n ++ " bytes from index " ++ toString f.index
  | none => "incomplete utf-8 byte sequence from index " ++ toString f.index

end Utf8
end Rollcall.Text
