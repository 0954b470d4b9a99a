import Rollcall.Net.IPv4

/-!
# IPv6 addresses

Eight groups of sixteen bits. The reader takes one to four hexadecimal digits a group, one `::` for
one or more zero groups, and an IPv4 address in place of the last two groups of a side. The printer
writes one form only: lower case, no leading zeros, the first longest run of at least two zero
groups as `::`, and an address that stands for an IPv4 address as `::ffff:` and dotted decimal.

    groups? limit cs   the groups in front of `cs`, at most `limit`
    ofText? s          the address that `s` is
    text a             the canonical written form
-/

namespace Rollcall.Net

/-- An address of the Internet Protocol, version 6, as its eight groups. -/
structure IPv6 where
  groups : List UInt16
  length_eq : groups.length = 8 := by rfl
  deriving Repr, DecidableEq

namespace IPv6

/-- The address with the given groups, if there are eight. -/
def ofGroups? (groups : List UInt16) : Option IPv6 :=
  if h : groups.length = 8 then some ⟨groups, h⟩ else none

/-- Takes the group in front: one to four hexadecimal digits, and no fifth after them. -/
def group? (cs : List Char) : Option (UInt16 × List Char) :=
  let digits := cs.takeWhile Text.isHexDigit
  if 4 < digits.length then none
  else (Text.number? 16 digits).map fun n =>
    (UInt16.ofNat n, cs.dropWhile Text.isHexDigit)

/-- Two groups that hold an IPv4 address. -/
def pair (ip : IPv4) : List UInt16 :=
  [UInt16.ofNat (ip.a.toNat * 256 + ip.b.toNat), UInt16.ofNat (ip.c.toNat * 256 + ip.d.toNat)]

/-- Steps over the colon before a group; the first group of a side has none. -/
def separator? (first : Bool) (cs : List Char) : Option (List Char) :=
  if first then some cs else IPv4.skip? ':' cs

/-- A run of groups as read: its members, and whether it ended with an IPv4 address, behind which no
group may follow. -/
structure Side where
  groups : List UInt16
  dotted : Bool
  rest : List Char

/-- Takes groups in front while there are any, at most `limit`. An IPv4 address counts as two and
ends the run. -/
def side (limit : Nat) (first : Bool) (cs : List Char) : Side :=
  match limit with
  | 0 => ⟨[], false, cs⟩
  | left + 1 =>
    let dotted? := if left = 0 then none else (separator? first cs).bind IPv4.scan?
    match dotted? with
    | some (ip, rest) => ⟨pair ip, true, rest⟩
    | none =>
      match (separator? first cs).bind group? with
      | some (g, rest) =>
        let more := side left false rest
        ⟨g :: more.groups, more.dotted, more.rest⟩
      | none => ⟨[], false, cs⟩

/-- Takes the address in front, and hands on what follows it. -/
def scan? (cs : List Char) : Option (IPv6 × List Char) :=
  let head := side 8 true cs
  if head.groups.length = 8 then (ofGroups? head.groups).map (·, head.rest)
  else if head.dotted then none
  else do
    let rest ← IPv4.skip? ':' head.rest
    let rest ← IPv4.skip? ':' rest
    let tail := side (7 - head.groups.length) true rest
    let zeros := List.replicate (8 - head.groups.length - tail.groups.length) 0
    let ip ← ofGroups? (head.groups ++ zeros ++ tail.groups)
    some (ip, tail.rest)

/-- Reads a text that is an address and nothing else. -/
def ofChars? (cs : List Char) : Option IPv6 :=
  match scan? cs with
  | some (ip, []) => some ip
  | _ => none

def ofText? (s : String) : Option IPv6 := ofChars? s.toList

/-! ### Writing -/

/-- The IPv4 address that an address of the form `::ffff:a.b.c.d` stands for. -/
def mapped? (ip : IPv6) : Option IPv4 :=
  match ip.groups with
  | [0, 0, 0, 0, 0, 0xFFFF, g, h] =>
    some ⟨UInt8.ofNat (g.toNat / 256), UInt8.ofNat (g.toNat % 256),
      UInt8.ofNat (h.toNat / 256), UInt8.ofNat (h.toNat % 256)⟩
  | _ => none

/-- How many zero groups stand in front. -/
def zerosInFront (groups : List UInt16) : Nat := (groups.takeWhile (· = 0)).length

/-- The first longest run of zero groups: where it starts and how long it is. Of several runs that
are equally long the first is left out. -/
def longestZeros (groups : List UInt16) : Nat × Nat :=
  match groups with
  | [] => (0, 0)
  | _ :: rest =>
    let here := zerosInFront groups
    let (start, length) := longestZeros rest
    if length ≤ here then (0, here) else (start + 1, length)

def joined (groups : List UInt16) : List Char :=
  [':'].intercalate (groups.map fun g => Text.hexadecimal g.toNat)

/-- Groups in hexadecimal, the first longest run of at least two zeros left out. -/
def compressed (groups : List UInt16) : List Char :=
  let (start, length) := longestZeros groups
  if 1 < length then
    joined (groups.take start) ++ ':' :: ':' :: joined (groups.drop (start + length))
  else joined groups

/-- The canonical written form: an address that stands for one of version 4 is written with dots,
and of any other the first longest run of zeros is left out. -/
def chars (ip : IPv6) : List Char :=
  match ip.mapped? with
  | some v4 => "::ffff:".toList ++ v4.chars
  | none => compressed ip.groups

def text (ip : IPv6) : String := String.ofList ip.chars

end IPv6
end Rollcall.Net
