/-!
# Digits and the numbers they spell

Ports, octets, lengths and settings are written in digits. A reader of numbers first takes the run
of digits, then asks `ofDigits` for its value; leading zeros never change the value, so a format
that forbids them says so itself.

    digit? base c      the value of one digit
    ofDigits base ds   the value of a run of digit values, most significant first
    decimal n          the decimal text of a number, without leading zeros
-/

namespace Rollcall.Text

/-- Whether a character is one of the ten ASCII digits. -/
def isDecimalDigit (c : Char) : Bool := '0' ≤ c && c ≤ '9'

/-- Whether a character is an ASCII hexadecimal digit, of either case. -/
def isHexDigit (c : Char) : Bool :=
  isDecimalDigit c || ('a' ≤ c && c ≤ 'f') || ('A' ≤ c && c ≤ 'F')

/-- The value of a digit below `base`. Letters continue after nine, in either case. -/
def digit? (base : Nat) (c : Char) : Option Nat :=
  let value :=
    if isDecimalDigit c then some (c.toNat - 48)
    else if 'a' ≤ c && c ≤ 'z' then some (c.toNat - 87)
    else if 'A' ≤ c && c ≤ 'Z' then some (c.toNat - 55)
    else none
  value.filter (· < base)

/-- The number that digit values spell in `base`, the most significant first. -/
def ofDigits (base : Nat) (ds : List Nat) : Nat := ds.foldl (fun n d => n * base + d) 0

/-- Reads a nonempty text of digits in `base`. There is no sign, no space and no bound, and zeros in
front do not count. -/
def number? (base : Nat) (cs : List Char) : Option Nat :=
  if cs.isEmpty then none else (cs.mapM (digit? base)).map (ofDigits base)

def decimal (n : Nat) : List Char := Nat.toDigits 10 n

def hexadecimal (n : Nat) : List Char := Nat.toDigits 16 n

/-- Digits filled up with zeros on the left to at least `width` places. -/
def zeroFilled (width : Nat) (ds : List Char) : List Char :=
  List.replicate (width - ds.length) '0' ++ ds

end Rollcall.Text
