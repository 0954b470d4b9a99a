import Rollcall.Net.IPv6

/-!
# Addresses to listen on

An endpoint is an address with a port: `0.0.0.0:80`, `[::1]:8080`, `[fe80::1%3]:80`. A version 6
address stands in brackets and may name the link it belongs to by a number after `%`; zero means no
link and is not written. Ports and links may have leading zeros when read.
-/

namespace Rollcall.Net

/-- An address and a port. That of version 6 may name the link that it belongs to. -/
inductive Endpoint where
  | v4 (ip : IPv4) (port : UInt16)
  | v6 (ip : IPv6) (scope : UInt32) (port : UInt16)
  deriving Repr, DecidableEq

namespace Endpoint

/-- Takes a decimal number below `bound` in front; leading zeros do not count. -/
def number? (bound : Nat) (cs : List Char) : Option (Nat × List Char) :=
  (Text.number? 10 (cs.takeWhile Text.isDecimalDigit)).bind fun n =>
    if n < bound then some (n, cs.dropWhile Text.isDecimalDigit) else none

/-- Reads a colon and a port that ends the text. -/
def port? (cs : List Char) : Option UInt16 := do
  let (port, rest) ← number? 65536 (← IPv4.skip? ':' cs)
  if rest.isEmpty then some (UInt16.ofNat port) else none

/-- The number of a link, if one is named in front. -/
def scope (cs : List Char) : UInt32 × List Char :=
  match (IPv4.skip? '%' cs).bind (number? 4294967296) with
  | some (n, rest) => (UInt32.ofNat n, rest)
  | none => (0, cs)

def ofV4? (cs : List Char) : Option Endpoint := do
  let (ip, rest) ← IPv4.scan? cs
  some (.v4 ip (← port? rest))

def ofV6? (cs : List Char) : Option Endpoint := do
  let (ip, rest) ← IPv6.scan? (← IPv4.skip? '[' cs)
  let (link, rest) := scope rest
  some (.v6 ip link (← port? (← IPv4.skip? ']' rest)))

def ofText? (s : String) : Option Endpoint := ofV4? s.toList <|> ofV6? s.toList

def portText (port : UInt16) : String := ":" ++ String.ofList (Text.decimal port.toNat)

def text : Endpoint → String
  | .v4 ip port => ip.text ++ portText port
  | .v6 ip scope port =>
    let link := if scope = 0 then "" else "%" ++ String.ofList (Text.decimal scope.toNat)
    "[" ++ ip.text ++ link ++ "]" ++ portText port

end Endpoint
end Rollcall.Net
