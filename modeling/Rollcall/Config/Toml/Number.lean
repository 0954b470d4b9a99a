import Rollcall.Config.Toml.Text

/-!
# TOML: numbers and moments

Digits may be parted by single underscores. An integer has no leading zeros and fits 64 bits with a
sign; it may be written in another base, then without one. A number with a point or an exponent is
real. Moments are dates, times or both, and have to be possible ones.
-/

namespace Rollcall.Config.Toml

open Inline (Reader)

/-- Takes the digits that follow a digit: each may have one underscore before it. -/
def moreDigits (isDigit : Char → Bool) : List Char → List Char × List Char
  | '_' :: c :: rest =>
    if isDigit c then
      let (ds, rest) := moreDigits isDigit rest
      (c :: ds, rest)
    else ([], '_' :: c :: rest)
  | c :: rest =>
    if isDigit c then
      let (ds, rest) := moreDigits isDigit rest
      (c :: ds, rest)
    else ([], c :: rest)
  | [] => ([], [])

def digits? (isDigit : Char → Bool) (cs : List Char) : Option (List Char × List Char) :=
  match cs with
  | c :: rest =>
    if isDigit c then
      let (ds, rest) := moreDigits isDigit rest
      some (c :: ds, rest)
    else none
  | [] => none

/-- Takes a sign, if there is one, and tells whether it is a minus. -/
def sign (cs : List Char) : Bool × List Char :=
  match cs with
  | '-' :: rest => (true, rest)
  | '+' :: rest => (false, rest)
  | cs => (false, cs)

/-- Takes the digits of a decimal number, of which the first is zero only if it is the only one. -/
def wholePart? (cs : List Char) : Option (List Char × List Char) :=
  match cs with
  | '0' :: rest => some (['0'], rest)
  | cs => digits? Text.isDecimalDigit cs

/-! ### Integers -/

/-- The integer of a sign and digits, if it fits 64 bits. -/
def signed? (negative : Bool) (n : Nat) : Option Int :=
  if negative then if n ≤ 9223372036854775808 then some (-n) else none
  else if n < 9223372036854775808 then some n else none

def inBase? (base : Nat) (cs : List Char) : Option (Int × List Char) := do
  let (ds, rest) ← digits? (fun c => (Text.digit? base c).isSome) cs
  some (← signed? false (← Text.number? base ds), rest)

def integer? (cs : List Char) : Option (Int × List Char) :=
  match cs with
  | '0' :: 'x' :: rest => inBase? 16 rest
  | '0' :: 'o' :: rest => inBase? 8 rest
  | '0' :: 'b' :: rest => inBase? 2 rest
  | cs => do
    let (negative, rest) := sign cs
    let (ds, rest) ← wholePart? rest
    some (← signed? negative (← Text.number? 10 ds), rest)

/-! ### Reals -/

def fraction? (cs : List Char) : Option (List Char × List Char) :=
  match cs with
  | '.' :: rest => digits? Text.isDecimalDigit rest
  | _ => none

def exponent? (cs : List Char) : Option (Int × List Char) :=
  match cs with
  | c :: rest =>
    if c = 'e' || c = 'E' then do
      let (negative, rest) := sign rest
      let (ds, rest) ← digits? Text.isDecimalDigit rest
      let n ← Text.number? 10 ds
      some (if negative then -(n : Int) else n, rest)
    else none
  | [] => none

/-- Whether a decimal number is beyond the largest real of 64 bits, rounding included. -/
def isTooLarge (mantissa : Nat) (exponent : Int) : Bool :=
  let bound := Nat.pow 2 1024 - Nat.pow 2 970
  let places : Int := (Text.decimal mantissa).length
  if mantissa = 0 || places + exponent < 0 then false
  else if 400 < places + exponent then true
  else if 0 ≤ exponent then bound ≤ mantissa * Nat.pow 10 exponent.toNat
  else bound * Nat.pow 10 (-exponent).toNat ≤ mantissa

/-- Takes a real number written in digits: it has a fraction, an exponent or both. -/
def decimalReal? (cs : List Char) : Option (List Char) := do
  let (negative, rest) := sign cs
  let (whole, rest) ← wholePart? rest
  let (fraction, rest') ← (fraction? rest) <|> some ([], rest)
  let (exponent, rest'') ← (exponent? rest') <|> some (0, rest')
  if rest''.length = rest.length then none
  let mantissa ← Text.number? 10 (whole ++ fraction)
  if !negative && isTooLarge mantissa (exponent - fraction.length) then none
  some rest''

/-- Takes a real number that has a name. -/
def namedReal? (cs : List Char) : Option (List Char) :=
  match (sign cs).2 with
  | 'i' :: 'n' :: 'f' :: rest => some rest
  | 'n' :: 'a' :: 'n' :: rest => some rest
  | _ => none

def real? (cs : List Char) : Option (List Char) := decimalReal? cs <|> namedReal? cs

/-! ### Moments -/

/-- Takes a number of exactly so many digits, within bounds. -/
def field? (places low high : Nat) (cs : List Char) : Option (Nat × List Char) := do
  let ds := cs.take places
  if ds.length < places || !ds.all Text.isDecimalDigit then none
  let n ← Text.number? 10 ds
  if low ≤ n && n ≤ high then some (n, cs.drop places) else none

def skip? (c : Char) : List Char → Option (List Char)
  | x :: rest => if x = c then some rest else none
  | [] => none

def daysIn (year month : Nat) : Nat :=
  if month = 2 then
    if year % 4 = 0 && (year % 100 ≠ 0 || year % 400 = 0) then 29 else 28
  else if month = 4 || month = 6 || month = 9 || month = 11 then 30
  else 31

def date? (cs : List Char) : Option (List Char) := do
  let (year, rest) ← field? 4 0 9999 cs
  let (month, rest) ← field? 2 1 12 (← skip? '-' rest)
  let (_, rest) ← field? 2 1 (daysIn year month) (← skip? '-' rest)
  some rest

def time? (cs : List Char) : Option (List Char) := do
  let (_, rest) ← field? 2 0 23 cs
  let (_, rest) ← field? 2 0 59 (← skip? ':' rest)
  let (_, rest) ← field? 2 0 60 (← skip? ':' rest)
  match rest with
  | '.' :: more =>
    let fraction := more.takeWhile Text.isDecimalDigit
    some (if fraction.isEmpty then rest else more.dropWhile Text.isDecimalDigit)
  | _ => some rest

/-- Steps over the distance from universal time, if it is given. -/
def offset (cs : List Char) : List Char :=
  let given : Option (List Char) :=
    match cs with
    | c :: rest =>
      if c = 'Z' || c = 'z' then some rest
      else if c = '+' || c = '-' then do
        let (_, rest) ← field? 2 0 23 rest
        let (_, rest) ← field? 2 0 59 (← skip? ':' rest)
        some rest
      else none
    | [] => none
  given.getD cs

/-- Takes a moment: a date, a time, or both with a letter or a space between them. -/
def moment? (cs : List Char) : Option (List Char) :=
  match date? cs with
  | none => time? cs
  | some rest =>
    match rest with
    | c :: more =>
      if c = 'T' || c = 't' || c = ' ' then some (((time? more).map offset).getD rest)
      else some rest
    | [] => some []

end Rollcall.Config.Toml
