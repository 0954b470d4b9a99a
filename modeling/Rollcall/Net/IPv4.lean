import Rollcall.Text.Digits

/-!
# IPv4 addresses

Four octets in dotted decimal: one to three digits each, at most 255, no leading zero. Each address
has one written form and the reader takes no other.

    scan? cs    the address that stands in front of `cs`, and what follows it
    ofText? s   the address that `s` is
    text a      the written form
-/

namespace Rollcall.Net

/-- An address of the Internet Protocol, version 4, as its four octets. -/
structure IPv4 where
  a : UInt8
  b : UInt8
  c : UInt8
  d : UInt8
  deriving Repr, DecidableEq, Inhabited

namespace IPv4

/-- The octets, the first written first. -/
def octets (ip : IPv4) : List UInt8 := [ip.a, ip.b, ip.c, ip.d]

def octetText (o : UInt8) : List Char := Text.decimal o.toNat

/-- Takes the octet in front. The whole run of digits has to be its written form, so there are no
zeros in front and there is no number above 255. -/
def octet? (cs : List Char) : Option (UInt8 × List Char) :=
  let digits := cs.takeWhile Text.isDecimalDigit
  let rest := cs.dropWhile Text.isDecimalDigit
  match digits with
  | [] => none
  | '0' :: _ :: _ => none
  | _ =>
    if 3 < digits.length then none
    else (Text.number? 10 digits).bind fun n =>
      if n < 256 then some (UInt8.ofNat n, rest) else none

def skip? (c : Char) : List Char → Option (List Char)
  | x :: rest => if x = c then some rest else none
  | [] => none

/-- Takes the address in front, and hands on what follows it. An IPv6 address may end with one. -/
def scan? (cs : List Char) : Option (IPv4 × List Char) := do
  let (a, cs) ← octet? cs
  let (b, cs) ← octet? (← skip? '.' cs)
  let (c, cs) ← octet? (← skip? '.' cs)
  let (d, cs) ← octet? (← skip? '.' cs)
  some (⟨a, b, c, d⟩, cs)

/-- Reads a text that is an address and nothing else. -/
def ofChars? (cs : List Char) : Option IPv4 :=
  match scan? cs with
  | some (ip, []) => some ip
  | _ => none

def ofText? (s : String) : Option IPv4 := ofChars? s.toList

def chars (ip : IPv4) : List Char := ['.'].intercalate (ip.octets.map octetText)

def text (ip : IPv4) : String := String.ofList ip.chars

end IPv4
end Rollcall.Net
